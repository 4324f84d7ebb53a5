import LateBinding.Proofs.Session.Binding
import LateBinding.Proofs.Weaving.Sites
import Mathlib.Data.Set.Card

set_option autoImplicit false

/-! # Call sites are bound by executing their calls

The call sites of a program are made when it is loaded, and nothing but the invocations of its
methods uses them unless somebody does so directly. A session is followed here from its log to the
runs in which the events happened: a use of a call site is an instruction that a run executes
(`Invocation.mem_log`, `Container.used_mem_invokeLog`), and no provider can use one
(`Container.used_notMem_readLog`). With what `Session/Binding` says of uses, a call site is bound
where its call was executed while its symbol was known. `Program.linked_iff_executed` states this
together with what `Machine/Sites` and `Weaving/Sites` say of the table of call sites.
-/

namespace LateBinding

/-! ## Providers do not use call sites -/

section Providers

variable {site : SiteId} {registry : String} {before : Container}

theorem Container.used_notMem_registerLog (c : Container) (other : String)
    (configurations : List Configuration) :
    .used site registry before ∉ c.registerLog other configurations := by
  unfold Container.registerLog
  split
  · exact List.not_mem_nil
  · generalize configurations.flatMap Configuration.methods = methods
    induction methods generalizing c with
    | nil => exact List.not_mem_nil
    | cons method methods ih =>
        intro h
        rcases List.mem_cons.1 h with h | h
        · cases h
        · exact ih _ h

theorem Routine.used_notMem_log {read : SingletonId → Effect Value}
    {log : SingletonId → Container → List Event}
    (hlog : ∀ id c, .used site registry before ∉ log id c) (routine : Routine) (c : Container) :
    .used site registry before ∉ routine.log read log c := by
  induction routine generalizing c with
  | done result => exact List.not_mem_nil
  | create owner slots next ih => exact ih _ _
  | display value next ih => exact ih _ _
  | get other name next ih =>
      unfold Routine.log
      split
      · exact ih _ _
      · intro h
        rcases List.mem_append.1 h with h | h
        · exact hlog _ _ h
        · split at h
          · cases h
          · exact ih _ _ h
  | register other names next ih =>
      intro h
      rcases List.mem_append.1 h with h | h
      · exact Container.used_notMem_registerLog c other _ h
      · exact ih _ _ h

/-- Reading a singleton uses no call site, whatever its body does. -/
theorem Container.used_notMem_readLog (depth : Nat) (id : SingletonId) (c : Container) :
    .used site registry before ∉ readLog depth id c := by
  induction depth generalizing id c with
  | zero => exact List.not_mem_nil
  | succ depth ih =>
      unfold readLog
      split
      · exact List.not_mem_nil
      · split
        · simp
        · exact List.not_mem_nil
        · intro h
          rcases List.mem_append.1 h with h | h
          · unfold runLog at h
            split at h
            · cases h
            · exact Routine.used_notMem_log ih _ _ h
          · split at h
            · cases h
            · simp at h

/-- An invocation of a call site uses this one, at once. -/
theorem Container.used_mem_siteLog {depth : Nat} {via : String} {id : SiteId} {c : Container} :
    .used site registry before ∈ siteLog depth via id c ↔
      site = id ∧ registry = via ∧ before = c := by
  rw [siteLog, List.mem_cons, Event.used.injEq, or_iff_left]
  split
  · exact used_notMem_readLog _ _ _
  · exact List.not_mem_nil

end Providers

/-! ## Uses in a run -/

namespace Invocation

variable {inv : Invocation} {depth : Nat} {via registry : String} {site : SiteId} {event : Event}
  {first : Frame} {c before : Container}

/-- What happens in a run happens in the instructions that it executes. -/
theorem mem_log {remaining : Nat} :
    event ∈ inv.log depth registry remaining first c ↔
      ∃ n frame now insn, n < remaining ∧ inv.Reaches depth registry first c n frame now ∧
        inv.method.code[frame.pc]? = some insn ∧
        event ∈ inv.stepLog depth registry frame now insn := by
  induction remaining generalizing first c with
  | zero => simp [log]
  | succ remaining ih =>
      cases hfetch : inv.method.code[first.pc]? with
      | none =>
          rw [log_of_none hfetch]
          refine iff_of_false List.not_mem_nil ?_
          rintro ⟨n, frame, now, insn, -, hreaches, fetch, -⟩
          cases n with
          | zero =>
              cases hreaches
              rw [hfetch] at fetch
              cases fetch
          | succ n =>
              obtain ⟨_, _, _, fetch, -⟩ := reaches_succ.1 hreaches
              rw [hfetch] at fetch
              cases fetch
      | some insn =>
          rw [log_succ hfetch, List.mem_append]
          constructor
          · rintro (h | h)
            · exact ⟨0, first, c, insn, Nat.succ_pos _, .start, hfetch, h⟩
            · cases hadvance : inv.advance depth registry first c insn with
              | none =>
                  rw [hadvance] at h
                  cases h
              | some outcome =>
                  rw [hadvance] at h
                  cases outcome with
                  | halt result after => cases h
                  | go next c₁ =>
                      obtain ⟨n, frame, now, insn', hn, hreaches, fetch, hevent⟩ := ih.1 h
                      exact ⟨n + 1, frame, now, insn', Nat.succ_lt_succ hn,
                        reaches_succ.2 ⟨insn, next, c₁, hfetch, hadvance, hreaches⟩, fetch, hevent⟩
          · rintro ⟨n, frame, now, insn', hn, hreaches, fetch, hevent⟩
            cases n with
            | zero =>
                cases hreaches
                rw [hfetch] at fetch
                cases fetch
                exact .inl hevent
            | succ n =>
                obtain ⟨_, next, c₁, fetch', hadvance, hrest⟩ := reaches_succ.1 hreaches
                rw [hfetch] at fetch'
                cases fetch'
                rw [hadvance]
                exact .inr (ih.2 ⟨n, frame, now, insn', Nat.lt_of_succ_lt_succ hn, hrest, fetch,
                  hevent⟩)

/-- An instruction uses the call site that it invokes. -/
theorem used_mem_stepLog {frame : Frame} {insn : Instruction} :
    .used site registry before ∈ inv.stepLog depth via frame c insn ↔
      registry = via ∧ before = c ∧ ∃ waiting, inv.step frame c.heap insn = .call site waiting := by
  unfold stepLog
  cases inv.step frame c.heap insn with
  | call id waiting =>
      rw [Container.used_mem_siteLog]
      constructor
      · rintro ⟨rfl, rfl, rfl⟩
        exact ⟨rfl, rfl, waiting, rfl⟩
      · rintro ⟨rfl, rfl, _, hcall⟩
        cases hcall
        exact ⟨rfl, rfl, rfl⟩
  | _ =>
      refine iff_of_false List.not_mem_nil ?_
      rintro ⟨-, -, _, hcall⟩
      cases hcall

end Invocation

/-- An invocation uses the call sites that its run invokes within its steps. -/
theorem Container.used_mem_invokeLog {depth : Nat} {via registry : String} {site : SiteId}
    {program : Program} {name : String} {receiver : Value} {args : List Value} {limit : Nat}
    {c before : Container} :
    .used site registry before ∈ invokeLog depth via program name receiver args limit c ↔
      registry = via ∧ ∃ inv n frame insn waiting, prepare program name args limit = .ok inv ∧
        n < limit ∧ inv.Reaches depth via (inv.start receiver args) c n frame before ∧
        inv.method.code[frame.pc]? = some insn ∧
        inv.step frame before.heap insn = .call site waiting := by
  unfold invokeLog
  cases prepare program name args limit with
  | error cause =>
      refine iff_of_false List.not_mem_nil ?_
      rintro ⟨-, _, _, _, _, _, hprepare, -⟩
      cases hprepare
  | ok inv =>
      show _ ∈ inv.log depth via limit (inv.start receiver args) c ↔ _
      rw [Invocation.mem_log]
      constructor
      · rintro ⟨n, frame, now, insn, hn, hreaches, fetch, hevent⟩
        obtain ⟨rfl, rfl, waiting, hstep⟩ := Invocation.used_mem_stepLog.1 hevent
        exact ⟨rfl, inv, n, frame, insn, waiting, rfl, hn, hreaches, fetch, hstep⟩
      · rintro ⟨rfl, inv', n, frame, insn, waiting, hprepare, hn, hreaches, fetch, hstep⟩
        cases hprepare
        exact ⟨n, frame, before, insn, hn, hreaches, fetch,
          Invocation.used_mem_stepLog.2 ⟨rfl, rfl, waiting, hstep⟩⟩

/-! ## Uses in a session -/

/-- A use of a call site finds something when its symbol is known. -/
theorem Event.found?_isSome {id : SiteId} {symbol : String} {event : Event} :
    (event.found? id symbol).isSome ↔
      ∃ registry before, event = .used id registry before ∧
        (before.lookup registry symbol).isSome := by
  cases event with
  | used site registry before =>
      by_cases hsite : site = id
      · subst hsite
        rw [found?, if_pos rfl]
        constructor
        · intro hknown
          exact ⟨registry, before, rfl, hknown⟩
        · rintro ⟨_, _, heq, hknown⟩
          cases heq
          exact hknown
      · rw [found?, if_neg hsite]
        refine iff_of_false Bool.false_ne_true ?_
        rintro ⟨_, _, heq, -⟩
        cases heq
        exact hsite rfl
  | _ =>
      refine iff_of_false Bool.false_ne_true ?_
      rintro ⟨_, _, heq, -⟩
      cases heq

/-- What happens in a session happens in its operations. -/
theorem Operation.mem_logAll {depth : Nat} {ops : List Operation} {c : Container} {event : Event} :
    event ∈ logAll depth ops c ↔
      ∃ earlier op later before, ops = earlier ++ op :: later ∧
        performAll depth earlier c = some before ∧ event ∈ op.log depth before := by
  induction ops generalizing c with
  | nil =>
      refine iff_of_false List.not_mem_nil ?_
      rintro ⟨earlier, op, later, before, hops, -⟩
      exact List.append_ne_nil_of_right_ne_nil earlier (List.cons_ne_nil op later) hops.symm
  | cons op ops ih =>
      rw [logAll, List.mem_append]
      constructor
      · rintro (h | h)
        · exact ⟨[], op, ops, c, rfl, rfl, h⟩
        · cases hop : op.perform depth c with
          | none =>
              rw [hop] at h
              cases h
          | some mid =>
              rw [hop] at h
              obtain ⟨earlier, other, later, before, rfl, hearlier, hevent⟩ := ih.1 h
              refine ⟨op :: earlier, other, later, before, rfl, ?_, hevent⟩
              rw [performAll, hop]
              exact hearlier
      · rintro ⟨earlier, other, later, before, hops, hearlier, hevent⟩
        cases earlier with
        | nil =>
            cases hops
            cases hearlier
            exact .inl hevent
        | cons _ earlier =>
            cases hops
            obtain ⟨mid, hop, hearlier⟩ := Option.bind_eq_some_iff.1 hearlier
            rw [hop]
            exact .inr (ih.2 ⟨earlier, other, later, before, rfl, hearlier, hevent⟩)

/-- The operation leaves the call sites of the program alone, unless it invokes one of its
methods. -/
def Operation.Spares (program : Program) : Operation → Prop
  | .link _ site | .read (.site _ site) => ∀ s ∈ program.sites, s.site ≠ site
  | .invoke _ other _ _ _ _ =>
    other = program ∨ ∀ s ∈ program.sites, ∀ t ∈ other.sites, s.site ≠ t.site
  | _ => True

namespace Program

variable {program : Program} {origin loaded c c' : Container} {depth : Nat} {s : ProgramSite}
  {symbol : String} {ops : List Operation}

/-- The operation is an invocation of a method of the program which executes the dynamic call of the
site: its run comes to it within its steps, with a value on the stack, in a moment in which the
symbol is known in the registry that the invocation links by. -/
def Executes (program : Program) (depth : Nat) (s : ProgramSite) (symbol : String) (c : Container) :
    Operation → Prop
  | .invoke registry other name receiver args limit =>
    other = program ∧ ∃ inv n frame now, Container.prepare program name args limit = .ok inv ∧
      n < limit ∧ inv.Reaches depth registry (inv.start receiver args) c n frame now ∧
      inv.index = s.method ∧ frame.pc = s.pc ∧ frame.stack ≠ [] ∧
      (now.lookup registry symbol).isSome
  | _ => False

/-- In a session that starts with the container `c`, some operation executes the dynamic call of the
site. -/
def ExecutedIn (program : Program) (depth : Nat) (s : ProgramSite) (symbol : String)
    (ops : List Operation) (c : Container) : Prop :=
  ∃ earlier op later before, ops = earlier ++ op :: later ∧
    Operation.performAll depth earlier c = some before ∧
    program.Executes depth s symbol before op

/-- The call site of a program is invoked by the instruction at its place, with a value on the
stack. -/
theorem invokes_iff (htable : program.Tabulates origin loaded) (hs : s ∈ program.sites)
    {inv : Invocation} (hprogram : inv.program = program)
    (hmethod : program.code.methods[inv.index]? = some inv.method) {frame : Frame} {heap : Heap} :
    (∃ insn waiting, inv.method.code[frame.pc]? = some insn ∧
        inv.step frame heap insn = .call s.site waiting) ↔
      inv.index = s.method ∧ frame.pc = s.pc ∧ frame.stack ≠ [] := by
  constructor
  · rintro ⟨insn, waiting, fetch, hstep⟩
    obtain ⟨_, _, value, stack, -, hstack, hsite, -⟩ := Invocation.step_eq_call hstep
    rw [hprogram] at hsite
    have hplace : ⟨inv.index, frame.pc, s.site⟩ ∈ program.sites := (htable.listed _).2 hsite
    have hsame : ⟨inv.index, frame.pc, s.site⟩ = s := htable.own _ hplace s hs rfl
    have hoperand : frame.stack ≠ [] := hstack ▸ List.cons_ne_nil value stack
    exact ⟨congrArg ProgramSite.method hsame, congrArg ProgramSite.pc hsame, hoperand⟩
  · rintro ⟨hindex, hpc, hoperand⟩
    have hsite := (htable.listed s).1 hs
    obtain ⟨method, i, j, hget, fetch⟩ :=
      (htable.stands s.method s.pc).1 (Option.isSome_of_eq_some hsite)
    rw [← hindex, hmethod] at hget
    cases hget
    obtain ⟨value, stack, hstack⟩ := List.exists_cons_of_ne_nil hoperand
    rw [← hindex, ← hpc, ← hprogram] at hsite
    exact ⟨_, _, hpc ▸ fetch, Invocation.step_dynamic hstack hsite⟩

/-- An invocation of a method of the program uses a call site of the program by executing the call
at its place. -/
theorem used_mem_invokeLog_iff (htable : program.Tabulates origin loaded) (hs : s ∈ program.sites)
    {via registry name : String} {receiver : Value} {args : List Value} {limit : Nat}
    {before : Container} :
    .used s.site registry before ∈
        Container.invokeLog depth via program name receiver args limit c ↔
      registry = via ∧ ∃ inv n frame, Container.prepare program name args limit = .ok inv ∧
        n < limit ∧ inv.Reaches depth via (inv.start receiver args) c n frame before ∧
        inv.index = s.method ∧ frame.pc = s.pc ∧ frame.stack ≠ [] := by
  have hmethod {inv : Invocation} (h : Container.prepare program name args limit = .ok inv) :
      program.code.methods[inv.index]? = some inv.method := by
    obtain ⟨_, _, -, hget, -, rfl⟩ := Container.prepare_eq_ok.1 h
    exact hget
  rw [Container.used_mem_invokeLog]
  constructor
  · rintro ⟨hvia, inv, n, frame, insn, waiting, hprepare, hn, hreaches, fetch, hstep⟩
    have hprogram := Container.program_of_prepare hprepare
    have hplace :=
      (invokes_iff htable hs hprogram (hmethod hprepare)).1 ⟨insn, waiting, fetch, hstep⟩
    exact ⟨hvia, inv, n, frame, hprepare, hn, hreaches, hplace⟩
  · rintro ⟨hvia, inv, n, frame, hprepare, hn, hreaches, hplace⟩
    have hprogram := Container.program_of_prepare hprepare
    obtain ⟨insn, waiting, fetch, hstep⟩ :=
      (invokes_iff htable hs hprogram (hmethod hprepare)).2 hplace
    exact ⟨hvia, inv, n, frame, insn, waiting, hprepare, hn, hreaches, fetch, hstep⟩

/-- An invocation of a method of another program uses the call sites of that program only. -/
theorem used_notMem_invokeLog {other : Program} {site : SiteId}
    (hforeign : ∀ t ∈ other.sites, site ≠ t.site) {via registry name : String} {receiver : Value}
    {args : List Value} {limit : Nat} {before : Container} :
    .used site registry before ∉
      Container.invokeLog depth via other name receiver args limit c := by
  intro hused
  obtain ⟨-, inv, n, frame, insn, waiting, hprepare, -, -, -, hstep⟩ :=
    Container.used_mem_invokeLog.1 hused
  obtain ⟨_, _, _, _, -, -, hsite, -⟩ := Invocation.step_eq_call hstep
  rw [Container.program_of_prepare hprepare] at hsite
  obtain ⟨t, hfound, htarget⟩ := Option.map_eq_some_iff.1 hsite
  exact hforeign t (List.mem_of_find?_eq_some hfound) htarget.symm

/-- An operation that spares the program finds something for a call site exactly by executing its
call. -/
theorem executes_iff (htable : program.Tabulates origin loaded) (hs : s ∈ program.sites)
    {op : Operation} (hspares : op.Spares program) :
    (∃ registry before, .used s.site registry before ∈ op.log depth c ∧
        (before.lookup registry symbol).isSome) ↔
      program.Executes depth s symbol c op := by
  cases op with
  | invoke via other name receiver args limit =>
      constructor
      · rintro ⟨registry, now, hused, hknown⟩
        rcases hspares with rfl | hforeign
        · obtain ⟨rfl, inv, n, frame, hprepare, hn, hreaches, hindex, hpc, hoperand⟩ :=
            (used_mem_invokeLog_iff htable hs).1 hused
          exact ⟨rfl, inv, n, frame, now, hprepare, hn, hreaches, hindex, hpc, hoperand, hknown⟩
        · exact absurd hused (used_notMem_invokeLog (hforeign s hs))
      · rintro ⟨rfl, inv, n, frame, now, hprepare, hn, hreaches, hindex, hpc, hoperand, hknown⟩
        exact ⟨via, now, (used_mem_invokeLog_iff htable hs).2
          ⟨rfl, inv, n, frame, hprepare, hn, hreaches, hindex, hpc, hoperand⟩, hknown⟩
  | link via site =>
      refine iff_of_false ?_ id
      rintro ⟨registry, now, hused, -⟩
      obtain ⟨hsite, -, -⟩ := Event.used.inj (List.mem_singleton.1 hused)
      exact hspares s hs hsite
  | read handle =>
      refine iff_of_false ?_ id
      rintro ⟨registry, now, hused, -⟩
      cases handle with
      | named via name =>
          simp only [Operation.log, Handle.log] at hused
          split at hused
          · exact Container.used_notMem_readLog _ _ _ hused
          · cases hused
      | kept id => exact Container.used_notMem_readLog _ _ _ hused
      | site via site =>
          obtain ⟨hsite, -, -⟩ := Container.used_mem_siteLog.1 hused
          exact hspares s hs hsite
  | register via configurations =>
      refine iff_of_false ?_ id
      rintro ⟨registry, now, hused, -⟩
      exact Container.used_notMem_registerLog c via configurations hused
  | _ =>
      refine iff_of_false ?_ id
      rintro ⟨registry, now, hused, -⟩
      cases hused

/-- What a session finds for a call site of the program, it finds by executing its call. -/
theorem found_iff_executed (htable : program.Tabulates origin loaded) (hs : s ∈ program.sites)
    (hspares : ∀ op ∈ ops, op.Spares program) :
    (firstFound s.site symbol (Operation.logAll depth ops c)).isSome ↔
      program.ExecutedIn depth s symbol ops c := by
  rw [firstFound, List.findSome?_isSome_iff]
  constructor
  · rintro ⟨event, hevent, hsome⟩
    obtain ⟨registry, now, rfl, hknown⟩ := Event.found?_isSome.1 hsome
    obtain ⟨earlier, op, later, before, rfl, hearlier, hused⟩ := Operation.mem_logAll.1 hevent
    have hop : op.Spares program := hspares op (List.mem_append_cons_self)
    exact ⟨earlier, op, later, before, rfl, hearlier,
      (executes_iff htable hs hop).1 ⟨registry, now, hused, hknown⟩⟩
  · rintro ⟨earlier, op, later, before, rfl, hearlier, hexecutes⟩
    have hop : op.Spares program := hspares op (List.mem_append_cons_self)
    obtain ⟨registry, now, hused, hknown⟩ := (executes_iff htable hs hop).2 hexecutes
    exact ⟨_, Operation.mem_logAll.2 ⟨earlier, op, later, before, rfl, hearlier, hused⟩,
      Event.found?_isSome.2 ⟨registry, now, rfl, hknown⟩⟩

/-- A call site is bound where its call was executed. -/
theorem isLinked_iff_executed (htable : program.Tabulates origin loaded) (hs : s ∈ program.sites)
    (hspares : ∀ op ∈ ops, op.Spares program)
    (h : Operation.performAll depth ops loaded = some c') :
    (c'.site s.site).isLinked ↔
      program.ExecutedIn depth s (loaded.site s.site).symbol ops loaded := by
  obtain ⟨symbol, slot, -, hfresh⟩ := htable.carries s hs
  obtain ⟨site, hsite, htrace⟩ := (FollowsSite.rule s.site).performAll h _ hfresh
  have hbound := CallSite.eq_of_unbound htrace rfl
  rw [Container.site_of_getElem? hsite, Container.site_of_getElem? hfresh, hbound,
    ← found_iff_executed htable hs hspares]
  show ((firstFound _ _ _).map Entry.singleton).isSome ↔ _
  rw [Option.isSome_map]

/-- As many call sites are bound as there are such. -/
theorem linkedSites_eq_ncard (h : program.sites.Nodup) (c : Container) :
    program.linkedSites c = {s | s ∈ program.sites ∧ (c.site s.site).isLinked}.ncard := by
  have hset : {s | s ∈ program.sites ∧ (c.site s.site).isLinked} =
      ↑(program.sites.filter fun s => (c.site s.site).isLinked).toFinset := by
    ext s
    simp
  rw [hset, Set.ncard_coe_finset, List.toFinset_card_of_nodup (h.filter _), linkedSites,
    List.countP_eq_length_filter]

/-- The call of a method is never executed when an earlier method has its name. -/
theorem not_executes_of_shadowed {i : Nat} {earlier own : Method} (hi : i < s.method)
    (hearlier : program.code.methods[i]? = some earlier)
    (hown : program.code.methods[s.method]? = some own)
    (hname : program.code.pool.string earlier.name = program.code.pool.string own.name)
    (op : Operation) : ¬ program.Executes depth s symbol c op := by
  intro hexecutes
  cases op with
  | invoke registry other name receiver args limit =>
      obtain ⟨rfl, inv, n, frame, now, hprepare, -, -, hindex, -⟩ := hexecutes
      obtain ⟨index, _, hfind, -, -, rfl⟩ := Container.prepare_eq_ok.1 hprepare
      obtain rfl : index = s.method := hindex
      -- the method that is invoked by its name is the first that has it
      obtain ⟨hlt, hnamed, hleast⟩ := Array.findIdx?_eq_some_iff_getElem.1 hfind
      obtain ⟨hlt', hget⟩ := Array.getElem?_eq_some_iff.1 hearlier
      obtain ⟨_, hget'⟩ := Array.getElem?_eq_some_iff.1 hown
      refine hleast i hi ?_
      rw [hget]
      rw [hget'] at hnamed
      unfold Module.isNamed at hnamed ⊢
      rw [hname]
      exact hnamed
  | _ => exact hexecutes

/-- In a program that was just loaded, no call site is bound. -/
theorem linkedSites_eq_zero (htable : program.Tabulates origin loaded) :
    program.linkedSites loaded = 0 := by
  rw [linkedSites, List.countP_eq_zero]
  intro s hs
  obtain ⟨symbol, slot, -, hfresh⟩ := htable.carries s hs
  rw [Container.site_of_getElem? hfresh]
  exact Bool.false_ne_true

/-- **A call site stands for a dynamic call and is bound by executing it.** When a module is loaded,
the instructions that are dynamic calls get a call site each, and no others do; the call sites are
listed in ascending order of their places, each once, with the strings of their calls, and none is
bound. If the module is what weaving made of another one, each read of a field with a marker of the
kind has its own call site at the same place, with the symbol of the last such marker and the name
of the field, and the call sites are as many as the reads that were replaced and the dynamic calls
that were there before.

Take then any session in which the program's call sites are not used but by invocations of its
methods. A call site is bound after it if and only if some invocation came within its steps to the
call, with a value on the stack, and in a moment in which the registry by which it links had the
symbol. The call sites that are counted as bound are just these. The call sites of a method are
never bound when an earlier method has the same name. -/
theorem linked_iff_executed {m : Module} (hload : origin.load m = .ok (program, loaded)) :
    (program.code = m ∧ program.Tabulates origin loaded ∧ program.linkedSites loaded = 0) ∧
    (∀ (before : Module) (kind : String) (summary : WeaveSummary),
      before.weave kind = .ok (m, summary) →
      (∀ (index pc : Nat) (method : Method) (field : UInt16) (found : Field) (symbol : String),
        before.methods[index]? = some method → method.code[pc]? = some (.getField field) →
        before.fields[field.toNat]? = some found →
        (before.symbols kind found).getLast? = some symbol →
        ∃ name site, before.pool.string found.name = .ok name ∧
          program.siteAt? index pc = some site ∧
          loaded.sites[site]? = some ⟨symbol, name, none⟩) ∧
      program.sites.length = summary.sites + before.dynamicCount) ∧
    ∀ depth ops c', (∀ op ∈ ops, op.Spares program) →
      Operation.performAll depth ops loaded = some c' →
      (∀ s ∈ program.sites, (c'.site s.site).isLinked ↔
        program.ExecutedIn depth s (loaded.site s.site).symbol ops loaded) ∧
      program.linkedSites c' = {s | s ∈ program.sites ∧
        program.ExecutedIn depth s (loaded.site s.site).symbol ops loaded}.ncard ∧
      ∀ s ∈ program.sites, ∀ i < s.method, ∀ earlier own, m.methods[i]? = some earlier →
        m.methods[s.method]? = some own → m.pool.string earlier.name = m.pool.string own.name →
        ¬ (c'.site s.site).isLinked := by
  have htable := tabulates_of_load hload
  have hcode : program.code = m := by
    obtain ⟨-, -, rfl⟩ := Container.load_eq_ok.1 hload
    rfl
  refine ⟨⟨hcode, htable, linkedSites_eq_zero htable⟩, ?_, ?_⟩
  · intro before kind summary hweave
    refine ⟨?_, length_sites_of_weave hweave hload⟩
    intro index pc method field found symbol hmethod hread hfield hlast
    exact site_of_read hweave hload hmethod hread hfield hlast
  · intro depth ops c' hspares hsession
    have hlinked (s : ProgramSite) (hs : s ∈ program.sites) :=
      isLinked_iff_executed htable hs hspares hsession
    refine ⟨hlinked, ?_, ?_⟩
    · rw [linkedSites_eq_ncard htable.nodup]
      congr 1
      ext s
      exact and_congr_right (hlinked s)
    · intro s hs i hi earlier own hearlier hown hname hbound
      subst hcode
      obtain ⟨_, op, _, _, -, -, hexecutes⟩ := (hlinked s hs).1 hbound
      exact not_executes_of_shadowed hi hearlier hown hname op hexecutes

end Program

/-- A module with two methods of one name, which read a field with a marker. -/
def Module.greeter : Module where
  name := 0
  pool := ⟨#[.str "Greeter", .str "inject", .str "greeting", .str "text", .str "greet"]⟩
  fields := #[⟨3, [⟨1, 2⟩]⟩]
  methods := Array.replicate 2 ⟨4, 0, 0, [], #[.loadLocal 0, .getField 0, .ret]⟩

/-- A session in which a method is invoked when its provider is not known yet, then with too few
steps to come to its call, and then with enough steps, though the provider fails. -/
def Operation.greetings (program : Program) : List Operation :=
  [.invoke "main" program "greet" .null [] 3,
    .addBody fun _ _ => .done (.error (.internal "broken")),
    .register "main" [⟨"first", [{ provides := "greeting", name := "fails", body := 0 }]⟩],
    .invoke "main" program "greet" .null [] 1,
    .invoke "main" program "greet" .null [] 2]

theorem Program.linked_iff_executed_greeter :
    ∃ woven summary program loaded c', Module.greeter.weave "inject" = .ok (woven, summary) ∧
      Container.load {} woven = .ok (program, loaded) ∧
      program.sites = [⟨0, 1, 0⟩, ⟨1, 1, 1⟩] ∧
      (∃ name site, Module.greeter.pool.string 3 = .ok name ∧ program.siteAt? 0 1 = some site ∧
        loaded.sites[site]? = some ⟨"greeting", name, none⟩) ∧
      Operation.performAll 1 (Operation.greetings program) loaded = some c' ∧
      (c'.site 0).isLinked ∧
      program.ExecutedIn 1 ⟨0, 1, 0⟩ "greeting" (Operation.greetings program) loaded ∧
      ¬ (c'.site 1).isLinked := by
  let woven := Module.greeter.woven "inject"
  let loaded : Container := (Container.addCalls {} woven.dynamicCalls).2
  let program : Program :=
    ⟨woven.pool.text woven.name, woven, (Container.addCalls {} woven.dynamicCalls).1⟩
  have hscannable : Module.greeter.Scannable "inject" :=
    (Module.validate_eq_ok_iff.1 (by decide +kernel)).scannable "inject" (by decide)
  have hweave : Module.greeter.weave "inject" = .ok (woven, Module.greeter.wovenSummary "inject") :=
    Module.weave_eq_ok.2 ⟨hscannable, rfl⟩
  have hconsistent : woven.Consistent := Module.validate_eq_ok_iff.1 (by decide +kernel)
  have hload : Container.load {} woven = .ok (program, loaded) :=
    Container.load_eq_ok.2 ⟨hconsistent, rfl, rfl⟩
  have hsites : program.sites = [⟨0, 1, 0⟩, ⟨1, 1, 1⟩] := by decide +kernel
  -- in the session, nobody uses the call sites directly
  have hspares : ∀ op ∈ Operation.greetings program, op.Spares program := by
    intro op hop
    simp only [Operation.greetings, List.mem_cons, List.not_mem_nil, or_false] at hop
    rcases hop with rfl | rfl | rfl | rfl | rfl <;> simp [Operation.Spares]
  have hends : ((Operation.performAll 1 (Operation.greetings program) loaded).map
      fun c => (c.site 0).isLinked) = some true := by decide +kernel
  obtain ⟨c', hsession, hbound⟩ := Option.map_eq_some_iff.1 hends
  obtain ⟨-, hreads, hsessions⟩ := linked_iff_executed hload
  obtain ⟨hread, -⟩ := hreads _ _ _ hweave
  obtain ⟨hlinked, -, hshadowed⟩ := hsessions 1 _ c' hspares hsession
  refine ⟨woven, _, program, loaded, c', hweave, hload, hsites, ?_, hsession, hbound, ?_, ?_⟩
  · exact hread 0 1 _ 0 _ "greeting" rfl rfl rfl (by decide +kernel)
  · have hsymbol : (loaded.site 0).symbol = "greeting" := by decide +kernel
    rw [← hsymbol]
    exact (hlinked ⟨0, 1, 0⟩ (by rw [hsites]; decide)).1 hbound
  · have hmethods : woven.methods =
        Array.replicate 2 ⟨4, 0, 0, [], #[.loadLocal 0, .invokeDynamic 2 3, .ret]⟩ := by
      decide +kernel
    exact hshadowed ⟨1, 1, 1⟩ (by rw [hsites]; decide) 0 (by decide) _ _
      (by rw [hmethods]; rfl) (by rw [hmethods]; rfl) rfl

end LateBinding
