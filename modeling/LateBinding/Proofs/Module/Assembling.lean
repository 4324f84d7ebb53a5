import LateBinding.Module.Builder
import LateBinding.Proofs.Module.Interning

set_option autoImplicit false

/-! # Method bodies

A body is assembled item by item: an instruction is emitted, a string is interned and pushed, a
branch that stands already gets its target, or a place is marked. `Pool.Assembles` says what code
comes of the items without following the assembly: each item that emits has its instruction, at the
place that the items before it leave for it and with the targets that the items behind it give it.
A fault of the pool in between is kept to the end, so `Assembly.Holds` promises the code of a body
without fault only, and for any body that the pool grows.
-/

namespace LateBinding

/-! ## What items come to -/

namespace CodeItem

/-- Whether the item emits an instruction. -/
def emits : CodeItem → Bool
  | .emit _ | .pushString _ => true
  | .retarget _ _ | .mark => false

/-- Where the instruction stands that is emitted after these items. -/
def place (items : List CodeItem) : Nat := items.countP emits

/-- The jump target that the item gives the instruction at a place. -/
def target? (place : Nat) : CodeItem → Option UInt32
  | .retarget location target => if location.toNat = place then some target else none
  | .emit _ | .pushString _ | .mark => none

end CodeItem

/-- The instruction at a place with the jump targets that items give it, one after the other. -/
def Instruction.retargetedBy (insn : Instruction) (items : List CodeItem) (place : Nat) :
    Instruction :=
  (items.filterMap (·.target? place)).foldl Instruction.retarget insn

/-- What stands for an item at its place when later items have been added: the instruction that it
emits, with the targets given to it, or a push of an index that holds its string. -/
inductive Pool.Stands (pool : Pool) (place : Nat) (later : List CodeItem) :
    CodeItem → Instruction → Prop
  | emitted (insn : Instruction) :
      Stands pool place later (.emit insn) (insn.retargetedBy later place)
  | pushed {text : String} {index : UInt16} (holds : pool.string index = .ok text) :
      Stands pool place later (.pushString text) (.pushConst index)

/-- The code has one instruction for each item that emits, in their order. -/
structure Pool.Assembles (pool : Pool) (items : List CodeItem) (code : Array Instruction) :
    Prop where
  size : code.size = CodeItem.place items
  stands : ∀ earlier item later, items = earlier ++ item :: later → item.emits →
    ∃ insn, code[CodeItem.place earlier]? = some insn ∧
      pool.Stands (CodeItem.place earlier) later item insn

variable {pool pool' start : Pool} {items later : List CodeItem} {item next : CodeItem}
  {insn : Instruction} {place : Nat} {code code' : Array Instruction} {a : Assembly}

theorem CodeItem.place_append (items items' : List CodeItem) :
    CodeItem.place (items ++ items') = CodeItem.place items + CodeItem.place items' :=
  List.countP_append

theorem Instruction.retargetedBy_append (insn : Instruction) (items items' : List CodeItem)
    (place : Nat) : insn.retargetedBy (items ++ items') place =
      (insn.retargetedBy items place).retargetedBy items' place := by
  simp only [retargetedBy, List.filterMap_append, List.foldl_append]

/-- Items that give no target leave an instruction as it is. -/
theorem Instruction.retargetedBy_of_none (h : next.target? place = none) (insn : Instruction) :
    insn.retargetedBy [next] place = insn := by
  simp only [retargetedBy, List.filterMap_cons, h, List.filterMap_nil, List.foldl_nil]

/-- An instruction that is no branch has no target to be given. -/
theorem Instruction.retargetedBy_of_noBranch (h : insn.branchTarget? = none)
    (items : List CodeItem) (place : Nat) : insn.retargetedBy items place = insn := by
  unfold retargetedBy
  induction items.filterMap (·.target? place) with
  | nil => rfl
  | cons target targets ih =>
      have hsame : insn.retarget target = insn := by
        cases insn with
        | jump _ | jumpIfNull _ => cases h
        | _ => rfl
      rw [List.foldl_cons, hsame, ih]

theorem Pool.Stands.mono (h : pool.Stands place later item insn) (hgrows : pool.GrowsTo pool') :
    pool'.Stands place later item insn := by
  cases h with
  | emitted insn => exact .emitted insn
  | pushed holds => exact .pushed (hgrows.string holds)

/-- One item more may give one target more. -/
theorem Pool.Stands.snoc (h : pool.Stands place later item insn) (next : CodeItem) :
    pool.Stands place (later ++ [next]) item (insn.retargetedBy [next] place) := by
  cases h with
  | emitted insn =>
      rw [← Instruction.retargetedBy_append]
      exact .emitted insn
  | pushed holds =>
      rw [Instruction.retargetedBy_of_noBranch rfl]
      exact .pushed holds

theorem Pool.Assembles.mono (h : pool.Assembles items code) (hgrows : pool.GrowsTo pool') :
    pool'.Assembles items code := by
  refine ⟨h.size, ?_⟩
  intro earlier item later hitems hemits
  obtain ⟨insn, hcode, hstands⟩ := h.stands earlier item later hitems hemits
  exact ⟨insn, hcode, hstands.mono hgrows⟩

/-- One item more: the code before gets its targets, and where it emits, its instruction comes
last. -/
theorem Pool.Assembles.snoc (h : pool.Assembles items code)
    (hsize : code'.size = code.size + CodeItem.place [next])
    (hkept : ∀ (place : Nat) (insn : Instruction), code[place]? = some insn →
      code'[place]? = some (insn.retargetedBy [next] place))
    (hnew : next.emits → ∃ insn, code'[code.size]? = some insn ∧
      pool.Stands code.size [] next insn) :
    pool.Assembles (items ++ [next]) code' := by
  refine ⟨by rw [hsize, h.size, CodeItem.place_append], ?_⟩
  intro earlier item later hitems hemits
  rcases List.eq_nil_or_concat later with rfl | ⟨later, last, rfl⟩
  · obtain ⟨rfl, hlast⟩ := List.append_inj' hitems rfl
    cases hlast
    rw [← h.size]
    exact hnew hemits
  · rw [List.concat_eq_append, ← List.cons_append, ← List.append_assoc] at hitems
    obtain ⟨hbefore, hlast⟩ := List.append_inj' hitems rfl
    cases hlast
    obtain ⟨insn, hcode, hstands⟩ := h.stands earlier item later hbefore hemits
    refine ⟨_, hkept _ _ hcode, ?_⟩
    rw [List.concat_eq_append]
    exact hstands.snoc next

/-! ## Assembling -/

namespace Assembly

/-- The items were added to an assembly that had this pool. -/
structure Holds (a : Assembly) (start : Pool) (items : List CodeItem) : Prop where
  grows : start.GrowsTo a.pool
  code : a.fault = none → a.pool.Assembles items a.code

/-- An instruction that is appended. -/
theorem assembles_push (h : pool.Assembles items code)
    (hstands : pool.Stands code.size [] next insn) (htarget : ∀ place, next.target? place = none)
    (hemits : next.emits) : pool.Assembles (items ++ [next]) (code.push insn) := by
  refine h.snoc ?_ ?_ ?_
  · rw [Array.size_push, CodeItem.place, List.countP_singleton, if_pos hemits]
  · intro place found hfound
    obtain ⟨hlt, -⟩ := Array.getElem?_eq_some_iff.1 hfound
    have hne : place ≠ code.size := Nat.ne_of_lt hlt
    rw [Instruction.retargetedBy_of_none (htarget place), Array.getElem?_push, if_neg hne, hfound]
  · intro _
    exact ⟨insn, Array.getElem?_push_size, hstands⟩

theorem Holds.add (h : a.Holds start items) (item : CodeItem) :
    (a.add item).Holds start (items ++ [item]) := by
  cases item with
  | emit insn =>
      refine ⟨h.grows, ?_⟩
      intro hfault
      exact assembles_push (h.code hfault) (.emitted insn) (fun _ => rfl) rfl
  | pushString text =>
      rcases Pool.intern_spec a.pool text with ⟨index, pool', hintern, hgrows, hholds⟩ | hfull
      · simp only [Assembly.add, hintern]
        refine ⟨h.grows.trans hgrows, ?_⟩
        intro hfault
        exact assembles_push ((h.code hfault).mono hgrows) (.pushed hholds) (fun _ => rfl) rfl
      · -- the fault is kept, so nothing is said about the code
        simp only [Assembly.add, hfull]
        refine ⟨h.grows, ?_⟩
        intro hfault
        cases hbefore : a.fault <;> simp [hbefore] at hfault
  | retarget location target =>
      refine ⟨h.grows, ?_⟩
      intro hfault
      refine (h.code hfault).snoc Array.size_modify ?_ nofun
      intro place found hfound
      show (a.code.modify location.toNat (·.retarget target))[place]? = _
      rw [Array.getElem?_modify, hfound]
      by_cases hplace : location.toNat = place
      · simp [hplace, Instruction.retargetedBy, CodeItem.target?]
      · have htarget : CodeItem.target? place (.retarget location target) = none := if_neg hplace
        rw [if_neg hplace, Instruction.retargetedBy_of_none htarget]
  | mark =>
      refine ⟨h.grows, ?_⟩
      intro hfault
      refine (h.code hfault).snoc rfl ?_ nofun
      intro place found hfound
      rw [Instruction.retargetedBy_of_none rfl]
      exact hfound

/-- A body that is assembled holds its items. -/
theorem holds_foldl (h : a.Holds start items) (more : List CodeItem) :
    (more.foldl add a).Holds start (items ++ more) := by
  induction more generalizing a items with
  | nil =>
      rw [List.append_nil]
      exact h
  | cons item more ih =>
      have hmore := ih (h.add item)
      rwa [List.append_assoc, List.singleton_append] at hmore

end Assembly

end LateBinding
