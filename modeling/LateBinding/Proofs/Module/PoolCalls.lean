import LateBinding.Proofs.Module.Interning

set_option autoImplicit false

/-! # A pool in use

A pool is filled by calls, each of which asks for the index of a constant: pushing appends the
constant in any case, interning appends a string that is not in the pool yet. `Call.Outcome` is all
that one call can come to. From it follows, by induction over the calls, that a pool never has more
constants than indices and only grows at its end, so what a call has answered stays right whatever
is called afterwards. `Pool.reliable_after` collects what the users of a pool rely on, from the
empty pool up to one that has a constant at every index.
-/

namespace LateBinding.Pool

variable {pool : Pool} {text : String} {index : UInt16}

/-! ## Strings at their first index -/

theorem First.unique {other : UInt16} (h : pool.First text index) (hother : pool.First text other) :
    index = other := by
  have hle : ¬ other < index := fun hlt => h.least other hlt hother.holds
  have hge : ¬ index < other := fun hlt => hother.least index hlt h.holds
  rw [UInt16.lt_iff_toNat_lt] at hle hge
  exact UInt16.toNat_inj.1 (by omega)

/-- A string that stands somewhere is looked up at the first index that holds it. -/
theorem find?_eq_some_iff : pool.find? text = some index ↔ pool.First text index := by
  constructor
  · exact first_of_find?
  · intro hfirst
    obtain ⟨found, hfound⟩ := Option.isSome_iff_exists.1 (find?_isSome ⟨index, hfirst.holds⟩)
    rw [hfound, (first_of_find? hfound).unique hfirst]

theorem find?_eq_none_iff (hfits : pool.size ≤ capacity) :
    pool.find? text = none ↔ .str text ∉ pool.entries :=
  ⟨notMem_of_find?_eq_none hfits, find?_eq_none⟩

theorem get?_extend {constant : Constant} (h : pool.get? index = some constant)
    (more : Array Constant) : (pool.extend more).get? index = some constant := by
  rw [get?] at h ⊢
  obtain ⟨hlt, -⟩ := Array.getElem?_eq_some_iff.1 h
  rw [extend, Array.getElem?_append_left hlt, h]

/-- The first index of a string stays its first index. -/
theorem First.extend (h : pool.First text index) (more : Array Constant) :
    (pool.extend more).First text index := by
  refine ⟨string_extend h.holds more, ?_⟩
  intro before hlt hbefore
  have hindex := h.holds
  rw [string_eq_ok, get?] at hindex hbefore
  obtain ⟨hbound, -⟩ := Array.getElem?_eq_some_iff.1 hindex
  have hbelow : before.toNat < pool.entries.size :=
    Nat.lt_trans (UInt16.lt_iff_toNat_lt.1 hlt) hbound
  rw [Pool.extend, Array.getElem?_append_left hbelow] at hbefore
  exact h.least before hlt (string_eq_ok.2 hbefore)

theorem extend_empty (pool : Pool) : pool.extend #[] = pool := by
  rw [extend, Array.append_empty]

theorem extend_extend (pool : Pool) (more further : Array Constant) :
    (pool.extend more).extend further = pool.extend (more ++ further) := by
  simp only [extend, Array.append_assoc]

/-- Every index of 16 bits has a constant. -/
def IsFull (pool : Pool) : Prop := ∀ index, (pool.get? index).isSome

theorem isFull_iff : pool.IsFull ↔ capacity ≤ pool.size := by
  constructor
  · intro hfull
    have hlast := hfull (UInt16.ofNat (capacity - 1))
    rw [get?, isSome_getElem?] at hlast
    exact Nat.le_of_pred_lt hlast
  · intro hle index
    rw [get?, isSome_getElem?]
    exact Nat.lt_of_lt_of_le index.toNat_lt hle

/-! ## Calls -/

/-- A call on a pool, which asks for the index of a constant. -/
inductive Call where
  | push (constant : Constant)
  | intern (text : String)

namespace Call

/-- The constant whose index is asked for. -/
def constant : Call → Constant
  | push constant => constant
  | intern text => .str text

/-- Make a call: its answer, and the pool to go on with. A call that fails hands out no other pool,
so the one that it was made on stays. -/
def perform (call : Call) (pool : Pool) : Except PoolFault UInt16 × Pool :=
  let outcome := match call with
    | push constant => pool.push constant
    | intern text => pool.intern text
  match outcome with
  | .ok (index, pool) => (.ok index, pool)
  | .error fault => (.error fault, pool)

/-- Whether the pool would have to grow for the call: a string that stands in it already is not
interned anew. -/
def Adds : Call → Pool → Prop
  | push _, _ => True
  | intern text, pool => .str text ∉ pool.entries

/-- What a call on a pool can come to. -/
inductive Outcome (pool : Pool) : Call → Except PoolFault UInt16 × Pool → Prop
  /-- The string stands in the pool already. -/
  | shared {text : String} {index : UInt16} (first : pool.First text index) :
      Outcome pool (intern text) (.ok index, pool)
  /-- The constant is appended, at the index after the last. -/
  | appended {call : Call} {index : UInt16} (adds : call.Adds pool)
      (next : index.toNat = pool.size) :
      Outcome pool call (.ok index, pool.extend #[call.constant])
  /-- There is no index left. -/
  | refused {call : Call} (adds : call.Adds pool) (full : pool.IsFull) :
      Outcome pool call (.error .full, pool)

variable {call : Call} {result : Except PoolFault UInt16 × Pool}

/-- A call that has to add a constant comes to the same as pushing the constant. -/
theorem perform_of_adds (hfits : pool.size ≤ capacity) (h : call.Adds pool) :
    call.perform pool = (push call.constant).perform pool := by
  cases call with
  | push constant => rfl
  | intern text =>
      have hnone := (find?_eq_none_iff hfits).2 h
      rw [perform, perform, Pool.intern, hnone]
      rfl

theorem perform_push_of_room (hroom : pool.size < capacity) (constant : Constant) :
    (push constant).perform pool =
      (.ok (UInt16.ofNat pool.size), pool.extend #[constant]) := by
  rw [perform, Pool.push, if_pos hroom]
  rfl

theorem perform_push_of_full (hfull : pool.IsFull) (constant : Constant) :
    (push constant).perform pool = (.error .full, pool) := by
  rw [perform, Pool.push, if_neg (Nat.not_lt.2 (isFull_iff.1 hfull))]

theorem perform_intern_of_first (h : pool.First text index) :
    (intern text).perform pool = (.ok index, pool) := by
  rw [perform, intern_of_find? (find?_eq_some_iff.2 h)]

/-- All that a call can come to. -/
theorem perform_outcome (hfits : pool.size ≤ capacity) (call : Call) :
    Outcome pool call (call.perform pool) := by
  have hadds (h : call.Adds pool) : Outcome pool call (call.perform pool) := by
    rw [perform_of_adds hfits h]
    by_cases hroom : pool.size < capacity
    · rw [perform_push_of_room hroom]
      exact .appended h (UInt16.toNat_ofNat_of_lt' hroom)
    · have hfull : pool.IsFull := isFull_iff.2 (Nat.le_of_not_lt hroom)
      rw [perform_push_of_full hfull]
      exact .refused h hfull
  cases call with
  | push constant => exact hadds trivial
  | intern text =>
      cases hfind : pool.find? text with
      | none => exact hadds ((find?_eq_none_iff hfits).1 hfind)
      | some index =>
          have hfirst := first_of_find? hfind
          rw [perform_intern_of_first hfirst]
          exact .shared hfirst

/-! ## What a call does to the pool -/

/-- The pool grows at its end or stays, and never has more constants than indices. -/
theorem Outcome.extends (h : Outcome pool call result) (hfits : pool.size ≤ capacity) :
    (∃ more, result.2 = pool.extend more) ∧ result.2.size ≤ capacity := by
  cases h with
  | shared first => exact ⟨⟨#[], (extend_empty pool).symm⟩, hfits⟩
  | refused adds full => exact ⟨⟨#[], (extend_empty pool).symm⟩, hfits⟩
  | @appended _ index adds next =>
      refine ⟨⟨_, rfl⟩, ?_⟩
      have hlt : index.toNat < capacity := index.toNat_lt
      rw [size_extend, ← next]
      exact hlt

/-- Nothing but a missing index makes a call fail, and then the pool stays as it is. -/
theorem Outcome.of_error {fault : PoolFault} (h : Outcome pool call result)
    (hfault : result.1 = .error fault) :
    (call.Adds pool ∧ pool.IsFull) ∧ result = (.error .full, pool) := by
  cases h with
  | shared first => cases hfault
  | appended adds next => cases hfault
  | refused adds full => exact ⟨⟨adds, full⟩, rfl⟩

/-- The index that is answered holds the constant. -/
theorem Outcome.get? (h : Outcome pool call result) (hanswer : result.1 = .ok index) :
    result.2.get? index = some call.constant := by
  cases h with
  | shared first =>
      cases hanswer
      exact string_eq_ok.1 first.holds
  | refused adds full => cases hanswer
  | appended adds next =>
      cases hanswer
      rw [Pool.get?, next, Pool.extend, Pool.size, Array.getElem?_append_right (Nat.le_refl _),
        Nat.sub_self]
      rfl

/-- A string stands at no other index before the one at which it is interned. -/
theorem Outcome.first (h : Outcome pool (intern text) result) (hanswer : result.1 = .ok index) :
    result.2.First text index := by
  refine ⟨string_eq_ok.2 (h.get? hanswer), ?_⟩
  cases h with
  | shared first =>
      cases hanswer
      exact first.least
  | refused adds full => cases hanswer
  | appended adds next =>
      cases hanswer
      intro before hlt hbefore
      -- below the new index stand the constants from before, and the string is not among them
      have hbelow : before.toNat < pool.size := next ▸ UInt16.lt_iff_toNat_lt.1 hlt
      rw [string_eq_ok, Pool.get?, Pool.extend, Array.getElem?_append_left hbelow] at hbefore
      exact adds (Array.mem_of_getElem? hbefore)

theorem Outcome.distinct (h : Outcome pool (intern text) result) (hdistinct : pool.Distinct)
    (hfits : pool.size ≤ capacity) : result.2.Distinct := by
  cases h with
  | shared first => exact hdistinct
  | refused adds full => exact hdistinct
  | @appended _ index adds next =>
      have hroom : pool.size < capacity := next ▸ index.toNat_lt
      exact (growsTo_append hroom ((find?_eq_none_iff hfits).2 adds)).distinct hdistinct

end Call

/-! ## Calls one after the other -/

/-- The pool after calls, whichever of them fail. -/
def after (pool : Pool) : List Call → Pool
  | [] => pool
  | call :: calls => (call.perform pool).2.after calls

/-- Calls only append to the pool, and never more constants than there are indices for. -/
theorem exists_extend_after (hfits : pool.size ≤ capacity) (calls : List Call) :
    (∃ more, pool.after calls = pool.extend more) ∧ (pool.after calls).size ≤ capacity := by
  induction calls generalizing pool with
  | nil => exact ⟨⟨#[], (extend_empty pool).symm⟩, hfits⟩
  | cons call calls ih =>
      obtain ⟨⟨more, hmore⟩, hfits'⟩ := (call.perform_outcome hfits).extends hfits
      obtain ⟨⟨further, hfurther⟩, hsize⟩ := ih hfits'
      refine ⟨⟨more ++ further, ?_⟩, hsize⟩
      rw [after, hfurther, hmore, extend_extend]

theorem distinct_after (hfits : pool.size ≤ capacity) (hdistinct : pool.Distinct)
    {calls : List Call} (hinterns : ∀ call ∈ calls, ∃ text, call = .intern text) :
    (pool.after calls).Distinct := by
  induction calls generalizing pool with
  | nil => exact hdistinct
  | cons call calls ih =>
      obtain ⟨⟨text, rfl⟩, hrest⟩ := List.forall_mem_cons.1 hinterns
      have houtcome := (Call.intern text).perform_outcome hfits
      exact ih (houtcome.extends hfits).2 (houtcome.distinct hdistinct hfits) hrest

/-- What the users of a pool rely on. -/
structure Reliable (pool : Pool) : Prop where
  /-- A string is looked up at the first index that holds it. -/
  found : ∀ text index, pool.find? text = some index ↔ pool.First text index
  /-- What is not found stands nowhere in the pool. -/
  missing : ∀ text, pool.find? text = none ↔ .str text ∉ pool.entries
  /-- A string that is found is interned at its index, and the pool stays as it is. -/
  shared : ∀ text index, pool.find? text = some index →
    (Call.intern text).perform pool = (.ok index, pool)
  /-- Any other constant is appended while there is room, at the index after the last. -/
  appended : ∀ call : Call, call.Adds pool → ¬ pool.IsFull → ∃ index, index.toNat = pool.size ∧
    call.perform pool = (.ok index, pool.extend #[call.constant])
  /-- Once interned, a string is found at its index and interned there again without growth. -/
  again : ∀ text index grown, (Call.intern text).perform pool = (.ok index, grown) →
    grown.find? text = some index ∧ (Call.intern text).perform grown = (.ok index, grown)
  /-- A call fails exactly when a constant would have to be added to a full pool. -/
  refused : ∀ call : Call, (∃ fault, (call.perform pool).1 = .error fault) ↔
    call.Adds pool ∧ pool.IsFull
  /-- A call that fails leaves the pool as it was. -/
  unchanged : ∀ (call : Call) fault, (call.perform pool).1 = .error fault →
    call.perform pool = (.error .full, pool)
  /-- Calls only append to the pool. -/
  grows : ∀ calls, ∃ more, pool.after calls = pool.extend more
  /-- An index that was answered holds the constant for good. -/
  keeps : ∀ (call : Call) index, (call.perform pool).1 = .ok index →
    ∀ calls, ((call.perform pool).2.after calls).get? index = some call.constant
  /-- A string that was found is found at the same index for good. -/
  settled : ∀ text index, pool.find? text = some index →
    ∀ calls, (pool.after calls).find? text = some index

theorem reliable_of_fits (hfits : pool.size ≤ capacity) : pool.Reliable where
  found _ _ := find?_eq_some_iff
  missing _ := find?_eq_none_iff hfits
  shared _ _ hfind := Call.perform_intern_of_first (first_of_find? hfind)
  appended call hadds hroom := by
    have hlt : pool.size < capacity := Nat.lt_of_not_le fun hle => hroom (isFull_iff.2 hle)
    rw [Call.perform_of_adds hfits hadds, Call.perform_push_of_room hlt]
    exact ⟨_, UInt16.toNat_ofNat_of_lt' hlt, rfl⟩
  again text index grown hperform := by
    have houtcome := (Call.intern text).perform_outcome hfits
    rw [hperform] at houtcome
    have hfirst : grown.First text index := houtcome.first rfl
    exact ⟨find?_eq_some_iff.2 hfirst, Call.perform_intern_of_first hfirst⟩
  refused call := by
    constructor
    · rintro ⟨fault, hfault⟩
      exact ((call.perform_outcome hfits).of_error hfault).1
    · rintro ⟨hadds, hfull⟩
      rw [Call.perform_of_adds hfits hadds, Call.perform_push_of_full hfull]
      exact ⟨.full, rfl⟩
  unchanged call _ hfault := ((call.perform_outcome hfits).of_error hfault).2
  grows calls := (exists_extend_after hfits calls).1
  keeps call index hanswer calls := by
    have houtcome := call.perform_outcome hfits
    obtain ⟨more, hmore⟩ := (exists_extend_after (houtcome.extends hfits).2 calls).1
    rw [hmore]
    exact get?_extend (houtcome.get? hanswer) more
  settled text index hfind calls := by
    obtain ⟨more, hmore⟩ := (exists_extend_after hfits calls).1
    rw [hmore]
    exact find?_eq_some_iff.2 ((first_of_find? hfind).extend more)

theorem distinct_empty : ({} : Pool).Distinct := ⟨[], List.nodup_nil, rfl⟩

/-- **A pool can be relied on after any calls.** Whatever was pushed and interned, from the empty
pool on, and whichever calls failed, strings are found at their first index, indices that were
answered keep their constants, and a call fails only where a constant would have to be added to a
pool that has no index left. Where strings were only interned, no string stands there twice. -/
theorem reliable_after (calls : List Call) :
    (after {} calls).Reliable ∧
    ((∀ call ∈ calls, ∃ text, call = .intern text) → (after {} calls).Distinct) := by
  have hempty : ({} : Pool).size ≤ capacity := Nat.zero_le _
  exact ⟨reliable_of_fits (exists_extend_after hempty calls).2, distinct_after hempty distinct_empty⟩

theorem after_concat (pool : Pool) (calls : List Call) (call : Call) :
    pool.after (calls ++ [call]) = (call.perform (pool.after calls)).2 := by
  induction calls generalizing pool with
  | nil => rfl
  | cons first calls ih => exact ih _

/-- Pushed constants are appended one after the other. -/
theorem after_replicate {constant : Constant} {count : Nat} (h : pool.size + count ≤ capacity) :
    pool.after (List.replicate count (.push constant)) =
      pool.extend (Array.replicate count constant) := by
  induction count generalizing pool with
  | zero => exact (extend_empty pool).symm
  | succ count ih =>
      have hroom : pool.size < capacity := by omega
      have hsize : (pool.extend #[constant]).size + count ≤ capacity := by
        rw [size_extend]
        show pool.size + 1 + count ≤ capacity
        omega
      rw [List.replicate_succ, after, Call.perform_push_of_room hroom, ih hsize, extend_extend,
        Array.replicate_succ']

theorem after_empty_replicate (constant : Constant) {count : Nat} (h : count ≤ capacity) :
    after {} (List.replicate count (.push constant)) = ⟨Array.replicate count constant⟩ := by
  have hroom : ({} : Pool).size + count ≤ capacity := by
    show 0 + count ≤ capacity
    omega
  rw [after_replicate hroom, extend, Array.empty_append]

theorem size_after_replicate (constant : Constant) {count : Nat} (h : count ≤ capacity) :
    (after {} (List.replicate count (.push constant))).size = count := by
  rw [after_empty_replicate constant h, size, Array.size_replicate]

/-- Where only numbers were pushed there is no string. -/
theorem str_notMem_after_replicate (value : Int64) {count : Nat} (h : count ≤ capacity)
    (text : String) :
    .str text ∉ (after {} (List.replicate count (.push (.int value)))).entries := by
  rw [after_empty_replicate (.int value) h, Array.mem_replicate]
  rintro ⟨-, hint⟩
  cases hint

/-- Calls that leave one index free, and then take it for a string. -/
def brimful : List Call := List.replicate 65535 (.push (.int 0)) ++ [.intern "last"]

/-- The string at the last index of all is found and interned there, another one is refused. -/
theorem reliable_after_brimful :
    (after {} brimful).find? "last" = some 65535 ∧
    (Call.intern "last").perform (after {} brimful) = (.ok 65535, after {} brimful) ∧
    (Call.intern "more").perform (after {} brimful) = (.error .full, after {} brimful) ∧
    (after {} [.intern "a", .intern "b", .intern "a"]).Distinct := by
  obtain ⟨hreliable, -⟩ := reliable_after (List.replicate 65535 (.push (.int 0)))
  obtain ⟨hfull, -⟩ := reliable_after brimful
  have hcount : 65535 ≤ capacity := by decide
  have hsize := size_after_replicate (.int 0) hcount
  have hnew := str_notMem_after_replicate 0 hcount
  rw [brimful, after_concat] at hfull ⊢
  generalize after {} (List.replicate 65535 (.push (.int 0))) = most at hreliable hfull hsize hnew ⊢
  have hroom : ¬ most.IsFull := by
    rw [isFull_iff, hsize]
    decide
  obtain ⟨index, hindex, hlast⟩ := hreliable.appended (.intern "last") (hnew "last") hroom
  obtain rfl : index = 65535 := UInt16.toNat_inj.1 (hindex.trans hsize)
  obtain ⟨hfind, hagain⟩ := hreliable.again "last" 65535 _ hlast
  rw [hlast] at hfull ⊢
  refine ⟨hfind, hagain, ?_, ?_⟩
  · have hadds : (Call.intern "more").Adds (most.extend #[.str "last"]) := by
      intro hmem
      rcases Array.mem_append.1 hmem with hold | hone
      · exact hnew "more" hold
      · have heq : Constant.str "more" = .str "last" := Array.mem_singleton.1 hone
        exact absurd heq (by decide)
    have hnoRoom : (most.extend #[.str "last"]).IsFull := by
      rw [isFull_iff, size_extend, hsize]
      exact Nat.le_refl _
    obtain ⟨fault, hfault⟩ := (hfull.refused (.intern "more")).2 ⟨hadds, hnoRoom⟩
    exact hfull.unchanged _ fault hfault
  · refine (reliable_after [.intern "a", .intern "b", .intern "a"]).2 ?_
    simp

end LateBinding.Pool
