import LateBinding.Proofs.Machine.Safety
import LateBinding.Proofs.Session.Binding

set_option autoImplicit false

/-! # How an invocation fails

An error may come up deep inside an invocation: in a body that a dynamic call runs, or in one that
such a body waits for. Still the class of the error tells where it came up. An invocation stops the
program itself (`Error.runtime`), reports that some provider did not give a value
(`Error.provider`), or reports that there is none (`Error.linkage`); and the last is said of a
dynamic call that the run itself has come to, whose call site is not bound and whose symbol leads
to nothing. `Invocation.Unserved` is this state of a run, and `Program.invoke_linkage_iff_unserved`
the statement.

The strings in the error are those of the call site. That these are the operands of the instruction
is known of a program that was just loaded; `Program.Labelled` carries it through any session.
-/

namespace LateBinding

/-! ## What call sites say -/

/-- Uses of a call site leave its strings as they are. -/
theorem CallSite.strings_of_trace {id : SiteId} {site site' : CallSite} {log : List Event}
    (h : Trace (SiteStep id) log site site') :
    site'.symbol = site.symbol ∧ site'.slot = site.slot := by
  cases htarget : site.target with
  | some target =>
      rw [CallSite.eq_of_bound h htarget]
      exact ⟨rfl, rfl⟩
  | none =>
      rw [CallSite.eq_of_unbound h htarget]
      exact ⟨rfl, rfl⟩

namespace Program

variable {program : Program} {c c' : Container}

/-- Every dynamic call of a program has a call site that carries the strings of its operands. -/
def Labelled (program : Program) (c : Container) : Prop :=
  ∀ call, program.code.HasCall call →
    ∃ id site, program.siteAt? call.method call.pc = some id ∧ c.sites[id]? = some site ∧
      site.symbol = call.symbol ∧ site.slot = call.slot

theorem labelled_of_load {origin loaded : Container} {m : Module}
    (h : origin.load m = .ok (program, loaded)) : program.Labelled loaded := by
  intro call hcall
  obtain ⟨id, hid, hfresh⟩ := site?_of_load h hcall
  exact ⟨id, call.fresh, hid, hfresh, rfl, rfl⟩

/-- Whatever happens, the call sites of a program keep their strings. -/
theorem Labelled.follows (h : program.Labelled c)
    (hfollows : ∀ id, ∃ log, FollowsSite id c log c') : program.Labelled c' := by
  intro call hcall
  obtain ⟨id, site, hid, hsite, hsymbol, hslot⟩ := h call hcall
  obtain ⟨log, hfollows⟩ := hfollows id
  obtain ⟨site', hsite', htrace⟩ := hfollows site hsite
  obtain ⟨hsymbol', hslot'⟩ := CallSite.strings_of_trace htrace
  exact ⟨id, site', hid, hsite', hsymbol'.trans hsymbol, hslot'.trans hslot⟩

end Program

/-! ## Bodies that fail -/

namespace Container

/-- Invoked by way of a registry, the call site leads to a singleton without a value, of the
provider called `provider`, whose body fails with this error and leaves this container. -/
inductive BodyFails (c : Container) (registry : String) (site : SiteId) :
    (depth : Nat) → (provider : String) → Error → Container → Prop
  | intro {depth : Nat} {target : SingletonId} {singleton : Singleton} {e : Error}
      {linked ended : Container} (links : c.link registry site = (.ok target, linked))
      (found : linked.singletons[target]? = some singleton) (empty : singleton.state = .empty)
      (fails : runBody (readSingleton depth) singleton.body [] (linked.setState target .running) =
        some (.error e, ended)) :
      BodyFails c registry site (depth + 1) singleton.name e (ended.setState target .empty)

/-- The error of a body is reported in the provider's name. -/
theorem invokeSite_of_bodyFails {c after : Container} {registry provider : String} {site : SiteId}
    {depth : Nat} {e : Error} (h : c.BodyFails registry site depth provider e after) :
    invokeSite depth registry site c = some (.error (e.ofProvider provider), after) := by
  cases h with
  | intro links found empty fails =>
      rw [invokeSite_of_ok links, readSingleton_of_empty found empty, fails]
      rfl

end Container

/-! ## Dynamic calls in a run -/

namespace Invocation

variable {inv : Invocation} {depth : Nat} {registry symbol slot : String} {frame waiting : Frame}
  {c after : Container} {insn : Instruction} {site : SiteId}

/-- The frame stands at a dynamic call whose operands are these strings, with a value on the stack
for it to take, and this is its call site. -/
structure Calls (inv : Invocation) (frame : Frame) (site : SiteId) (symbol slot : String) :
    Prop where
  insn : ∃ i j, inv.method.code[frame.pc]? = some (.invokeDynamic i j) ∧
    inv.program.code.pool.string i = .ok symbol ∧ inv.program.code.pool.string j = .ok slot
  operand : frame.stack ≠ []
  place : inv.program.siteAt? inv.index frame.pc = some site

/-- The frame stands at a dynamic call whose call site is not bound and whose symbol leads to
nothing in the registry. -/
structure Unserved (inv : Invocation) (registry : String) (frame : Frame) (c : Container)
    (site : SiteId) (symbol slot : String) : Prop extends inv.Calls frame site symbol slot where
  unbound : (c.site site).target = none
  missing : c.lookup registry symbol = none

/-- At a dynamic call, a step is an invocation of its call site. -/
theorem Calls.advance (h : inv.Calls frame site symbol slot) (depth : Nat) (registry : String)
    (c : Container) :
    ∃ insn waiting, inv.method.code[frame.pc]? = some insn ∧
      inv.advance depth registry frame c insn =
        (Container.invokeSite depth registry site c).map
          fun (answer, c) => .answered waiting answer c := by
  obtain ⟨i, j, fetch, -, -⟩ := h.insn
  obtain ⟨value, stack, hstack⟩ := List.exists_cons_of_ne_nil h.operand
  exact ⟨_, _, fetch, by rw [Invocation.advance, step_dynamic hstack h.place]⟩

/-- A step that invokes a call site stands at a dynamic call. -/
theorem Loaded.calls (h : inv.Loaded) (fetch : inv.method.code[frame.pc]? = some insn)
    {heap : Heap} (hstep : inv.step frame heap insn = .call site waiting) :
    ∃ symbol slot, inv.Calls frame site symbol slot := by
  obtain ⟨i, j, value, stack, rfl, hstack, hsite, -⟩ := step_eq_call hstep
  obtain ⟨⟨symbol, hsymbol⟩, ⟨slot, hslot⟩⟩ := h.allows fetch
  have hoperand : frame.stack ≠ [] := hstack ▸ List.cons_ne_nil value stack
  exact ⟨symbol, slot, ⟨i, j, fetch, hsymbol, hslot⟩, hoperand, hsite⟩

/-- The call site of a dynamic call carries its operands. -/
theorem Calls.strings (h : inv.Calls frame site symbol slot) (hloaded : inv.Loaded)
    (hlabelled : inv.program.Labelled c) :
    (c.site site).symbol = symbol ∧ (c.site site).slot = slot := by
  obtain ⟨i, j, fetch, hi, hj⟩ := h.insn
  obtain ⟨id, found, hid, hfound, hsymbol, hslot⟩ :=
    hlabelled ⟨inv.index, frame.pc, symbol, slot⟩ ⟨inv.method, i, j, hloaded.method, fetch, hi, hj⟩
  cases h.place.symm.trans hid
  rw [Container.site_of_getElem? hfound]
  exact ⟨hsymbol, hslot⟩

/-- **An instruction ends a run with a linkage error exactly where it is a dynamic call that is not
served**, and then changes nothing. -/
theorem advance_eq_linkage (hloaded : inv.Loaded) (hlabelled : inv.program.Labelled c) :
    (∃ insn, inv.method.code[frame.pc]? = some insn ∧ inv.advance depth registry frame c insn =
        some (.halt (.error (.linkage symbol slot)) after)) ↔
      after = c ∧ ∃ site, inv.Unserved registry frame c site symbol slot := by
  constructor
  · rintro ⟨insn, fetch, halts⟩
    obtain ⟨_, -, hresult, -⟩ | ⟨_, -, hresult, -⟩ | ⟨site, waiting, e, hstep, hinvoke, hresult⟩ :=
      advance_eq_halt halts
    -- an answer and a trap are no linkage errors, so a call site has failed
    · cases hresult
    · cases hresult
    · cases hresult
      obtain ⟨hunbound, hmissing, rfl, rfl, hafter⟩ := Container.invokeSite_eq_linkage.1 hinvoke
      obtain ⟨symbol, slot, hcalls⟩ := hloaded.calls fetch hstep
      obtain ⟨rfl, rfl⟩ := hcalls.strings hloaded hlabelled
      exact ⟨hafter, site, hcalls, hunbound, hmissing⟩
  · rintro ⟨rfl, site, hunserved⟩
    obtain ⟨insn, waiting, fetch, hadvance⟩ := hunserved.toCalls.advance depth registry after
    obtain ⟨rfl, rfl⟩ := hunserved.toCalls.strings hloaded hlabelled
    have hinvoke : Container.invokeSite depth registry site after =
        some (.error (.linkage (after.site site).symbol (after.site site).slot), after) :=
      Container.invokeSite_eq_linkage.2 ⟨hunserved.unbound, hunserved.missing, rfl, rfl, rfl⟩
    refine ⟨insn, fetch, ?_⟩
    rw [hadvance, hinvoke]
    rfl

/-- A run ends with an error of the program, for want of a provider, or in the name of one. -/
theorem error_of_endsAt {left : Nat} {e : Error}
    (h : inv.EndsAt depth registry frame c left (.error e) after) :
    (∃ cause, e = .runtime cause) ∨ (∃ symbol slot, e = .linkage symbol slot) ∨
      ∃ name text, e = .provider name text := by
  cases h with
  | fellOff fetch => exact .inl ⟨_, rfl⟩
  | limit fetch => exact .inl ⟨_, rfl⟩
  | halt fetch halts =>
      obtain ⟨_, -, hresult, -⟩ | ⟨cause, -, hresult, -⟩ | ⟨_, _, e', -, hinvoke, hresult⟩ :=
        advance_eq_halt halts
      · cases hresult
      · cases hresult
        exact .inl ⟨cause, rfl⟩
      · cases hresult
        obtain rfl | ⟨name, text, rfl⟩ := Container.error_of_invokeSite hinvoke
        · exact .inr (.inl ⟨_, _, rfl⟩)
        · exact .inr (.inr ⟨name, text, rfl⟩)

/-- A program keeps its labels in a run. -/
theorem Reaches.labelled {first : Frame} {origin : Container} {n : Nat}
    (h : inv.Reaches depth registry first origin n frame c)
    (hlabelled : inv.program.Labelled origin) : inv.program.Labelled c :=
  hlabelled.follows fun id => (FollowsSite.rule id).reaches h

/-- A run ends with a linkage error exactly where it comes, within its steps, to a dynamic call
that is not served. -/
theorem run_eq_linkage {first : Frame} {origin : Container} {limit : Nat} (hloaded : inv.Loaded)
    (hlabelled : inv.program.Labelled origin) :
    inv.run depth registry limit first origin =
        some (.error (.linkage symbol slot), after) ↔
      ∃ n frame site, n < limit ∧ inv.Reaches depth registry first origin n frame after ∧
        inv.Unserved registry frame after site symbol slot := by
  constructor
  · intro h
    obtain ⟨n, left, frame, c, hn, hreaches, hend⟩ := exists_reaches_of_run h
    -- a run that falls off its code or comes to its limit ends with a runtime error
    cases hend with
    | halt fetch halts =>
        obtain ⟨rfl, site, hunserved⟩ :=
          (advance_eq_linkage hloaded (hreaches.labelled hlabelled)).1 ⟨_, fetch, halts⟩
        exact ⟨n, frame, site, by omega, hreaches, hunserved⟩
  · rintro ⟨n, frame, site, hn, hreaches, hunserved⟩
    obtain ⟨insn, fetch, halts⟩ :=
      (advance_eq_linkage hloaded (hreaches.labelled hlabelled)).2 ⟨rfl, site, hunserved⟩
    exact run_of_halt hreaches hn fetch halts

end Invocation

/-! ## Invocations -/

namespace Container

variable {program : Program} {name registry : String} {args : List Value} {limit depth : Nat}
  {inv : Invocation} {receiver : Value} {c after : Container}

/-- An invocation that fails does so with an error of the program, for want of a provider, or in the
name of one. -/
theorem error_of_invoke {e : Error}
    (h : invoke depth registry program name receiver args limit c = some (.error e, after)) :
    (∃ cause, e = .runtime cause) ∨ (∃ symbol slot, e = .linkage symbol slot) ∨
      ∃ name text, e = .provider name text := by
  cases hprepare : prepare program name args limit with
  | error cause =>
      simp only [invoke, hprepare] at h
      cases h
      exact .inl ⟨cause, rfl⟩
  | ok inv =>
      rw [invoke_of_prepare hprepare] at h
      obtain ⟨_, _, _, _, -, -, hend⟩ := Invocation.exists_reaches_of_run h
      exact Invocation.error_of_endsAt hend

/-- An invocation fails for want of a provider exactly where its run comes, within its steps, to a
dynamic call that is not served. -/
theorem invoke_eq_linkage {origin loaded : Container} {m : Module} {symbol slot : String}
    (hload : origin.load m = .ok (program, loaded)) (hlabelled : program.Labelled c) :
    invoke depth registry program name receiver args limit c =
        some (.error (.linkage symbol slot), after) ↔
      ∃ inv n frame site, prepare program name args limit = .ok inv ∧ n < limit ∧
        inv.Reaches depth registry (inv.start receiver args) c n frame after ∧
        inv.Unserved registry frame after site symbol slot := by
  cases hprepare : prepare program name args limit with
  | error cause =>
      -- a method that cannot be invoked ends with a runtime error and has no run
      simp only [invoke, hprepare]
      constructor
      · intro h
        cases h
      · rintro ⟨_, _, _, _, hinv, -⟩
        cases hinv
  | ok inv =>
      have hloaded := Invocation.loaded_of_prepare hload hprepare
      have hlabels : inv.program.Labelled c := program_of_prepare hprepare ▸ hlabelled
      rw [invoke_of_prepare hprepare, Invocation.run_eq_linkage hloaded hlabels]
      constructor
      · rintro ⟨n, frame, site, hn, hreaches, hunserved⟩
        exact ⟨inv, n, frame, site, rfl, hn, hreaches, hunserved⟩
      · rintro ⟨_, n, frame, site, hinv, hn, hreaches, hunserved⟩
        cases hinv
        exact ⟨n, frame, site, hn, hreaches, hunserved⟩

end Container

/-- **A linkage error is the run's own.** Take a loaded module after any session, and any
invocation of one of its methods. If it fails, it does so with an error of the program, for want of
a provider, or in the name of one. It fails for want of a provider exactly when the run comes,
within its steps, to a dynamic call with a value for it to take, whose call site is not bound and
whose symbol leads to nothing in the registry at that moment. The error carries the operands of the
call, the call site is not bound afterwards, and a run that has come to such a call goes nowhere
from there. A body that fails, be it for want of a provider, ends the run in the name of its own
provider. -/
theorem Program.invoke_linkage_iff_unserved {origin loaded c : Container} {m : Module}
    {program : Program} {deep : Nat} {ops : List Operation}
    (hload : origin.load m = .ok (program, loaded))
    (hsession : Operation.performAll deep ops loaded = some c) (depth : Nat)
    (registry name : String) (receiver : Value) (args : List Value) (limit : Nat) :
    (∀ e after, Container.invoke depth registry program name receiver args limit c =
        some (.error e, after) →
      (∃ cause, e = .runtime cause) ∨ (∃ symbol slot, e = .linkage symbol slot) ∨
        ∃ name text, e = .provider name text) ∧
    (∀ symbol slot after, Container.invoke depth registry program name receiver args limit c =
        some (.error (.linkage symbol slot), after) ↔
      ∃ inv n frame site, Container.prepare program name args limit = .ok inv ∧ n < limit ∧
        inv.Reaches depth registry (inv.start receiver args) c n frame after ∧
        inv.Unserved registry frame after site symbol slot) ∧
    ∀ inv n frame now site symbol slot, Container.prepare program name args limit = .ok inv →
      inv.Reaches depth registry (inv.start receiver args) c n frame now →
      inv.Calls frame site symbol slot →
      (inv.Unserved registry frame now site symbol slot → ∀ n' frame' now',
        inv.Reaches depth registry (inv.start receiver args) c n' frame' now' → n' ≤ n) ∧
      ∀ provider e after, now.BodyFails registry site depth provider e after → n < limit →
        Container.invoke depth registry program name receiver args limit c =
            some (.error (e.ofProvider provider), after) ∧
          ∃ name text, e.ofProvider provider = .provider name text := by
  have hlabelled : program.Labelled c := (Program.labelled_of_load hload).follows
    fun id => ⟨_, (FollowsSite.rule id).performAll hsession⟩
  refine ⟨fun _ _ => Container.error_of_invoke,
    fun _ _ _ => Container.invoke_eq_linkage hload hlabelled, ?_⟩
  intro inv n frame now site symbol slot hprepare hreaches hcalls
  have hloaded := Invocation.loaded_of_prepare hload hprepare
  have hnow := hreaches.labelled (Container.program_of_prepare hprepare ▸ hlabelled)
  constructor
  · intro hunserved n' frame' now' hreaches'
    obtain ⟨insn, fetch, halts⟩ :=
      (Invocation.advance_eq_linkage hloaded hnow).2 ⟨rfl, site, hunserved⟩
    exact hreaches.le_of_halt fetch halts hreaches'
  · intro provider e after hfails hn
    obtain ⟨insn, waiting, fetch, hadvance⟩ := hcalls.advance depth registry now
    obtain ⟨inner, text, hprovider⟩ := e.ofProvider_eq provider
    rw [Container.invokeSite_of_bodyFails hfails] at hadvance
    rw [Container.invoke_of_prepare hprepare]
    exact ⟨Invocation.run_of_halt hreaches hn fetch hadvance, inner, text, hprovider⟩

/-- A session that gives `symbol` a provider in one registry, whose body waits for a name that this
registry does not know. -/
def Operation.unanswered : List Operation :=
  [.addBody fun _ _ => .get "main" "absent" .done,
    .register "main" [⟨"settings", [{ provides := "symbol", name := "waits", body := 0 }]⟩]]

theorem Program.invoke_linkage_iff_unserved_chooser :
    ∃ program loaded c, Container.load {} Module.chooser = .ok (program, loaded) ∧
      Operation.performAll 2 Operation.unanswered loaded = some c ∧
      Container.invoke 2 "bare" program "choose" (.int 0) [.null] 100 c =
        some (.error (.linkage "symbol" "slot"), c) ∧
      ∃ after, Container.invoke 2 "main" program "choose" (.int 0) [.null] 100 c =
        some (.error ((Error.linkage "absent" registrySlot).ofProvider "symbol"), after) := by
  let singleton : Singleton := { name := "symbol", body := 0 }
  obtain ⟨program, loaded, c, inv, hload, hsession, hprepare, hreaches, hmissing, after, hfails⟩ :
      ∃ program loaded c inv, Container.load {} Module.chooser = .ok (program, loaded) ∧
        Operation.performAll 2 Operation.unanswered loaded = some c ∧
        Container.prepare program "choose" [.null] 100 = .ok inv ∧
        (∀ registry, ∃ frame, inv.Reaches 2 registry (inv.start (.int 0) [.null]) c 5 frame c ∧
          inv.Calls frame 0 "symbol" "slot") ∧
        ((c.site 0).target = none ∧ c.lookup "bare" "symbol" = none) ∧
        ∃ after, c.BodyFails "main" 0 2 singleton.name (.linkage "absent" registrySlot) after := by
    refine ⟨_, _, _, _, rfl, rfl,
      Container.prepare_eq_ok.2 ⟨0, _, by decide +kernel, rfl, rfl, rfl⟩, ?_, ⟨rfl, rfl⟩, _,
      .intro rfl rfl rfl rfl⟩
    intro registry
    exact ⟨_, .step (.step (.step (.step (.step .start rfl rfl) rfl rfl) rfl rfl) rfl rfl) rfl rfl,
      ⟨2, 3, rfl, rfl, rfl⟩, List.cons_ne_nil _ _, rfl⟩
  refine ⟨program, loaded, c, hload, hsession, ?_, after, ?_⟩
  · obtain ⟨-, hlinkage, -⟩ :=
      invoke_linkage_iff_unserved hload hsession 2 "bare" "choose" (.int 0) [.null] 100
    obtain ⟨frame, hreaches, hcalls⟩ := hreaches "bare"
    exact (hlinkage "symbol" "slot" c).2
      ⟨inv, 5, frame, 0, hprepare, by decide, hreaches, hcalls, hmissing.1, hmissing.2⟩
  · obtain ⟨-, -, hstops⟩ :=
      invoke_linkage_iff_unserved hload hsession 2 "main" "choose" (.int 0) [.null] 100
    obtain ⟨frame, hreaches, hcalls⟩ := hreaches "main"
    obtain ⟨-, hends⟩ := hstops inv 5 frame c 0 "symbol" "slot" hprepare hreaches hcalls
    exact (hends _ _ after hfails (by decide)).1

end LateBinding
