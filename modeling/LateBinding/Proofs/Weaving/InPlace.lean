import LateBinding.Proofs.Weaving.Woven
import Mathlib.Algebra.GroupWithZero.Nat

set_option autoImplicit false

/-! # Weaving in place

A module can also be woven where it stands: strings are interned in its own pool and instructions
are replaced in its own code, so an error on the way would leave a module that is woven in part.
`Module.weaveInPlace` does this step by step and answers with the module as it is left, also where
it fails. Once the scan has succeeded nothing can fail, and before that nothing is changed:
`weaveInPlace_eq` proves that weaving in place leaves the woven module or the module as it was.

What weaving does to a module is said without the table of calls: `Module.Turns` for a single
instruction, `Module.Replaces` for the module.
-/

namespace LateBinding

namespace Module

/-! ## The steps -/

/-- Intern a string in the pool of the module. -/
def internInto (m : Module) (text : String) : Except PoolFault UInt16 × Module :=
  match m.pool.intern text with
  | .ok (index, pool) => (.ok index, { m with pool })
  | .error fault => (.error fault, m)

/-- Intern the strings of the injection points in the pool of the module, point by point, and note
their calls. A fault leaves the module with what was interned before. -/
def noteInto (m : Module) (targets : CallTargets) :
    List InjectionPoint → Except PoolFault CallTargets × Module
  | [] => (.ok targets, m)
  | point :: points =>
    match m.internInto point.symbol with
    | (.error fault, m) => (.error fault, m)
    | (.ok symbol, m) =>
      match m.internInto point.slot with
      | (.error fault, m) => (.error fault, m)
      | (.ok slot, m) =>
        m.noteInto (targets.setIfInBounds point.fieldIndex.toNat (some ⟨symbol, slot⟩)) points

/-- Replace the reads of all injection points of the kind in the module itself, and answer with the
module as it is left. -/
def weaveInPlace (m : Module) (kind : String) : Except FormatError WeaveSummary × Module :=
  match m.scan kind with
  | .error cause => (.error cause, m)
  | .ok points =>
    match m.title with
    | .error fault => (.error (.pool fault), m)
    | .ok owner =>
      match m.noteInto (Array.replicate m.fields.size none) points with
      | (.error fault, m) => (.error (.pool fault), m)
      | (.ok targets, m) =>
        let sites := (m.methods.toList.map (·.wovenSites targets)).foldr (· + ·) 0
        (.ok { owner, points, sites }, { m with methods := m.methods.map (·.weave targets) })

/-! ## No module is left half woven -/

variable {m : Module} {kind : String}

theorem internInto_of_intern {text : String} {index : UInt16} {pool : Pool}
    (h : m.pool.intern text = .ok (index, pool)) :
    m.internInto text = (.ok index, { m with pool }) := by
  rw [internInto, h]

/-- Where the calls can be noted at all, the same are noted in place. -/
theorem noteInto_of_foldlM {points : List InjectionPoint} {targets targets' : CallTargets}
    {pool : Pool} (h : points.foldlM addTarget (m.pool, targets) = .ok (pool, targets')) :
    m.noteInto targets points = (.ok targets', { m with pool }) := by
  induction points generalizing m targets with
  | nil =>
      cases h
      rfl
  | cons point points ih =>
      obtain ⟨⟨next, noted⟩, hpoint, hrest⟩ := Except.bind_eq_ok.1 h
      simp only [addTarget, Except.bind_eq_ok, Except.pure_eq_ok] at hpoint
      obtain ⟨⟨symbol, first⟩, hsymbol, ⟨slot, second⟩, hslot, hnoted⟩ := hpoint
      cases hnoted
      rw [noteInto, internInto_of_intern hsymbol]
      show (match internInto { m with pool := first } point.slot with
        | (.error fault, m) => (Except.error fault, m)
        | (.ok slot, m) => m.noteInto
            (targets.setIfInBounds point.fieldIndex.toNat (some ⟨symbol, slot⟩)) points) = _
      rw [internInto_of_intern (m := { m with pool := first }) hslot]
      exact ih (m := { m with pool := second }) hrest

theorem weaveInPlace_of_scannable (h : m.Scannable kind) :
    m.weaveInPlace kind = (.ok (m.wovenSummary kind), m.woven kind) := by
  have hscan : m.scan kind = .ok (m.points kind) := scan_eq_ok.2 ⟨h, rfl⟩
  have htitle : m.title = .ok (m.pool.text m.name) := Pool.isString_iff.1 h.name
  -- the strings of the points are in the pool already, so interning them leaves it as it is
  have hnote : m.noteInto (Array.replicate m.fields.size none) (m.points kind) =
      (.ok (m.callTargets kind), m) := noteInto_of_foldlM (targets_eq h)
  rw [weaveInPlace, hscan, htitle]
  show (match m.noteInto (Array.replicate m.fields.size none) (m.points kind) with
    | (.error fault, m) => (Except.error (FormatError.pool fault), m)
    | (.ok targets, m) => _) = _
  rw [hnote]
  rfl

/-- A module is scanned, or there is an error. -/
theorem scannable_or_error (m : Module) (kind : String) :
    m.Scannable kind ∨ ∃ cause, m.scan kind = .error cause := by
  cases hscan : m.scan kind with
  | error cause => exact .inr ⟨cause, rfl⟩
  | ok points => exact .inl (scan_eq_ok.1 hscan).1

theorem weave_of_scannable (h : m.Scannable kind) :
    m.weave kind = .ok (m.woven kind, m.wovenSummary kind) :=
  weave_eq_ok.2 ⟨h, rfl⟩

theorem weave_of_scan_error {cause : FormatError} (h : m.scan kind = .error cause) :
    m.weave kind = .error cause := by
  rw [weave, h]
  rfl

/-- **Weaving in place leaves the woven module, or the module as it was.** -/
theorem weaveInPlace_eq (m : Module) (kind : String) :
    m.weaveInPlace kind = match m.weave kind with
      | .ok (woven, summary) => (.ok summary, woven)
      | .error cause => (.error cause, m) := by
  obtain h | ⟨cause, h⟩ := m.scannable_or_error kind
  · rw [weaveInPlace_of_scannable h, weave_of_scannable h]
  · rw [weave_of_scan_error h, weaveInPlace, h]

end Module

/-! ## What becomes of an instruction -/

namespace Module

/-- What weaving makes of an instruction. A read of a field that carries a marker of the kind
becomes a dynamic call with the symbol of the last such marker and the name of the field, each at
its first index; every other instruction stays. -/
inductive Turns (m : Module) (kind : String) : Instruction → Instruction → Prop
  | read {index i j : UInt16} {field : Field} {symbol name : String}
      (declared : m.fields[index.toNat]? = some field)
      (last : (m.symbols kind field).getLast? = some symbol)
      (named : m.pool.string field.name = .ok name)
      (symbolAt : m.pool.First symbol i) (nameAt : m.pool.First name j) :
      Turns m kind (.getField index) (.invokeDynamic i j)
  | other {insn : Instruction}
      (unmarked : ∀ index field, insn = .getField index → m.fields[index.toNat]? = some field →
        m.symbols kind field = []) :
      Turns m kind insn insn

/-- The second module is the first with its reads replaced, and differs in nothing else. -/
structure Replaces (m : Module) (kind : String) (after : Module) : Prop where
  name : after.name = m.name
  pool : after.pool = m.pool
  fields : after.fields = m.fields
  methods : after.methods.size = m.methods.size
  method : ∀ (i : Nat) (old new : Method),
    m.methods[i]? = some old → after.methods[i]? = some new →
      new = { old with code := new.code } ∧ new.code.size = old.code.size ∧
      ∀ (pc : Nat) (insn insn' : Instruction),
        old.code[pc]? = some insn → new.code[pc]? = some insn' → m.Turns kind insn insn'

end Module

/-- Number of places where the code of two methods differs. -/
def Method.changes (old new : Method) : Nat :=
  (old.code.toList.zip new.code.toList).countP fun (insn, insn') => insn ≠ insn'

/-- Number of places where the code of two modules differs. -/
def Module.changes (old new : Module) : Nat :=
  ((old.methods.toList.zip new.methods.toList).map fun (a, b) => a.changes b).sum

variable {m : Module} {kind : String}

theorem Module.Scannable.turns (h : m.Scannable kind) (insn : Instruction) :
    m.Turns kind insn (insn.weave (m.callTargets kind)) := by
  unfold Instruction.weave
  split
  · next index =>
      rw [at?_callTargets]
      cases hcall : m.callTarget? kind index with
      | some target =>
          obtain ⟨field, hfield, hcall⟩ := Option.bind_eq_some_iff.1 hcall
          obtain ⟨symbol, hlast, hcall⟩ := Option.bind_eq_some_iff.1 hcall
          obtain ⟨hsymbol, hslot⟩ := Pool.call?_eq_some.1 hcall
          have hmarked : m.symbols kind field ≠ [] :=
            List.ne_nil_of_mem (List.mem_of_getLast? hlast)
          have hname := (h.field field (Array.mem_of_getElem? hfield)).2 hmarked
          exact .read hfield hlast (Pool.isString_iff.1 hname) (Pool.first_of_find? hsymbol)
            (Pool.first_of_find? hslot)
      | none =>
          -- a marked field would have a call, since both of its strings are in the pool
          refine .other fun other field hinsn hfield => ?_
          cases hinsn
          cases hlast : (m.symbols kind field).getLast? with
          | none => exact List.getLast?_eq_none_iff.1 hlast
          | some symbol =>
              have hsome := callTarget?_isSome h (symbol?_eq_some.2 ⟨field, hfield, hlast⟩)
              rw [hcall] at hsome
              cases hsome
  · next hother => exact .other fun index _ hinsn _ => absurd hinsn (hother index)

/-- An instruction is replaced when it changes. -/
theorem Instruction.isWoven_iff {targets : CallTargets} {insn : Instruction} :
    insn.isWoven targets = true ↔ insn ≠ insn.weave targets := by
  cases insn with
  | getField index =>
      simp only [isWoven, weave]
      cases targets.at? index with
      | none => simp
      | some target => simp
  | _ => simp [isWoven, weave]

theorem Method.wovenSites_eq (targets : CallTargets) (method : Method) :
    method.wovenSites targets = method.changes (method.weave targets) := by
  rw [wovenSites, changes, weave, Array.toList_map, ← Array.countP_toList]
  induction method.code.toList with
  | nil => rfl
  | cons insn code ih =>
      rw [List.map_cons, List.zip_cons_cons, List.countP_cons, List.countP_cons, ih]
      simp only [Instruction.isWoven_iff, decide_eq_true_eq]

namespace Module

theorem Scannable.replaces (h : m.Scannable kind) : m.Replaces kind (m.woven kind) := by
  refine ⟨rfl, rfl, rfl, Array.size_map, ?_⟩
  intro i old new hold hnew
  rw [woven, Array.getElem?_map, hold] at hnew
  cases hnew
  refine ⟨rfl, Array.size_map, ?_⟩
  intro pc insn insn' hinsn hinsn'
  change (old.code.map (·.weave (m.callTargets kind)))[pc]? = some insn' at hinsn'
  rw [Array.getElem?_map, hinsn] at hinsn'
  cases hinsn'
  exact h.turns insn

theorem sites_wovenSummary (m : Module) (kind : String) :
    (m.wovenSummary kind).sites = m.changes (m.woven kind) := by
  rw [changes, woven, Array.toList_map]
  show (m.methods.toList.map (·.wovenSites (m.callTargets kind))).foldr (· + ·) 0 = _
  induction m.methods.toList with
  | nil => rfl
  | cons method methods ih =>
      rw [List.map_cons, List.foldr_cons, ih, List.map_cons, List.zip_cons_cons, List.map_cons,
        List.sum_cons, Method.wovenSites_eq]

/-- **Weaving replaces the reads of injection points and nothing else.** It fails exactly where
scanning does, with the same error, and then leaves the module as it was. Otherwise the name, the
pool and the fields of the module stay, and so do the methods but for the instructions that read a
field with a marker of the kind; the summary counts these, and lists the markers of the kind in the
order of the fields and then of the markers, each once. -/
theorem weave_replaces (m : Module) (kind : String) :
    (∀ cause, m.scan kind = .error cause →
      m.weave kind = .error cause ∧ m.weaveInPlace kind = (.error cause, m)) ∧
    ∀ points, m.scan kind = .ok points →
      points = m.points kind ∧ ∃ woven summary, m.weave kind = .ok (woven, summary) ∧
        m.weaveInPlace kind = (.ok summary, woven) ∧ m.Replaces kind woven ∧
        m.title = .ok summary.owner ∧ summary.points = points ∧
        summary.sites = m.changes woven := by
  constructor
  · intro cause hscan
    have hweave := weave_of_scan_error hscan
    refine ⟨hweave, ?_⟩
    rw [weaveInPlace_eq, hweave]
  · intro points hscan
    obtain ⟨h, rfl⟩ := scan_eq_ok.1 hscan
    exact ⟨rfl, m.woven kind, m.wovenSummary kind, weave_of_scannable h,
      weaveInPlace_of_scannable h, h.replaces, Pool.isString_iff.1 h.name, rfl,
      m.sites_wovenSummary kind⟩

/-- A module with a field that is marked twice, where a string stands in the pool twice, and a
method that reads and writes the field. The markers of the field are as given. -/
def marked (markers : List Marker) : Module where
  name := 0
  pool := ⟨#[.str "Holder", .str "inject", .str "first", .str "second", .int 3, .str "second",
    .str "slot", .str "swap"]⟩
  fields := #[⟨6, markers⟩]
  methods := #[⟨7, 1, 0, [], #[.loadLocal 0, .getField 0, .loadLocal 0, .loadLocal 1, .putField 0,
    .ret]⟩]

theorem weave_replaces_marked :
    (∃ woven summary, (marked [⟨1, 2⟩, ⟨1, 5⟩]).weaveInPlace "inject" = (.ok summary, woven) ∧
      (marked [⟨1, 2⟩, ⟨1, 5⟩]).Replaces "inject" woven ∧
      summary.points = [⟨"Holder", 0, "slot", "first"⟩, ⟨"Holder", 0, "slot", "second"⟩] ∧
      summary.sites = (marked [⟨1, 2⟩, ⟨1, 5⟩]).changes woven ∧
      woven.methods.map Method.code = #[#[.loadLocal 0, .invokeDynamic 3 6, .loadLocal 0,
        .loadLocal 1, .putField 0, .ret]]) ∧
    (marked [⟨1, 2⟩, ⟨4, 5⟩]).weaveInPlace "inject" =
      (.error (.pool (.notString 4)), marked [⟨1, 2⟩, ⟨4, 5⟩]) := by
  constructor
  · obtain ⟨-, hwoven⟩ := weave_replaces (marked [⟨1, 2⟩, ⟨1, 5⟩]) "inject"
    obtain ⟨-, woven, summary, hweave, hplace, hreplaces, -, hpoints, hsites⟩ := hwoven _ rfl
    refine ⟨woven, summary, hplace, hreplaces, hpoints, hsites, ?_⟩
    obtain ⟨-, hresult⟩ := weave_eq_ok.1 hweave
    cases hresult
    decide +kernel
  · obtain ⟨hfails, -⟩ := weave_replaces (marked [⟨1, 2⟩, ⟨4, 5⟩]) "inject"
    exact (hfails _ rfl).2

end Module

end LateBinding
