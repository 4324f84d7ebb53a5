import LateBinding.Codec.Encode

set_option autoImplicit false

/-! # What a reader takes

A reader that succeeds has passed some bytes: they stood at the front before, and the cursor
has moved past them (`Cursor.Passes`). For the readers of a format this can be said exactly.
`Reads reader fits write` states that `reader` reads the values that fit the format, each off
its written form, and succeeds on nothing else. It is an equivalence, so the two directions
of the codec, that written bytes are read back and that read bytes would be written again,
are one statement about each reader and are proved together.

The readers of numbers and `many` are treated here, those of the parts of a module in
`Proofs/Codec/Layout.lean`.
-/

namespace LateBinding.Codec

variable {α β : Type}

/-! ## Passing bytes -/

/-- From `before` to `after`, the cursor passes exactly `bytes`. -/
structure Cursor.Passes (before : Cursor) (bytes : Bytes) (after : Cursor) : Prop where
  rest_eq : before.rest = bytes ++ after.rest
  position_eq : after.position = before.position + bytes.length

namespace Cursor

@[simp] theorem passes_nil {before after : Cursor} :
    before.Passes [] after ↔ after = before := by
  cases before
  cases after
  constructor
  · rintro ⟨hrest, hposition⟩
    simp_all
  · rintro ⟨rfl, rfl⟩
    exact ⟨rfl, rfl⟩

/-- Passing a string of bytes is passing its two parts one after the other. -/
theorem passes_append {before after : Cursor} {front back : Bytes} :
    before.Passes (front ++ back) after ↔
      ∃ middle, before.Passes front middle ∧ Passes middle back after := by
  constructor
  · rintro ⟨hrest, hposition⟩
    refine ⟨⟨before.position + front.length, back ++ after.rest⟩, ⟨?_, rfl⟩, ⟨rfl, ?_⟩⟩
    · rw [hrest, List.append_assoc]
    · rw [hposition, List.length_append, Nat.add_assoc]
  · rintro ⟨middle, ⟨hfront, hposition⟩, ⟨hback, hposition'⟩⟩
    refine ⟨?_, ?_⟩
    · rw [hfront, hback, List.append_assoc]
    · rw [hposition', hposition, List.length_append, Nat.add_assoc]

theorem passes_cons {before after : Cursor} {byte : UInt8} {back : Bytes} :
    before.Passes (byte :: back) after ↔
      ∃ middle, before.Passes [byte] middle ∧ Passes middle back after := by
  rw [← passes_append, List.singleton_append]

end Cursor

/-! ## Readers that succeed -/

namespace Reader

theorem pure_eq_ok {value found : α} {before after : Cursor} :
    (Pure.pure value : Reader α) before = .ok (found, after) ↔
      found = value ∧ after = before := by
  show Except.ok (value, before) = Except.ok (found, after) ↔ _
  simp [eq_comm]

theorem bind_eq_ok {first : Reader α} {next : α → Reader β} {value : β}
    {before after : Cursor} :
    (first >>= next) before = .ok (value, after) ↔
      ∃ a middle, first before = .ok (a, middle) ∧ next a middle = .ok (value, after) := by
  show Reader.bind first next before = _ ↔ _
  unfold Reader.bind
  cases first before with
  | error cause => simp
  | ok result =>
      constructor
      · intro h
        exact ⟨result.1, result.2, rfl, h⟩
      · rintro ⟨a, middle, hresult, h⟩
        cases hresult
        exact h

theorem map_eq_ok {f : α → β} {reader : Reader α} {value : β} {before after : Cursor} :
    Reader.map f reader before = .ok (value, after) ↔
      ∃ a, reader before = .ok (a, after) ∧ value = f a := by
  show (reader >>= fun a => (Pure.pure (f a) : Reader β)) before = _ ↔ _
  simp only [bind_eq_ok, pure_eq_ok]
  constructor
  · rintro ⟨a, middle, hread, rfl, rfl⟩
    exact ⟨a, hread, rfl⟩
  · rintro ⟨a, hread, rfl⟩
    exact ⟨a, after, hread, rfl, rfl⟩

theorem fail_ne_ok {cause : FormatError} {value : α} {before after : Cursor} :
    (Reader.fail cause : Reader α) before ≠ .ok (value, after) := by
  intro h
  cases h

theorem take_eq_ok {count : Nat} {bytes : Bytes} {before after : Cursor} :
    take count before = .ok (bytes, after) ↔
      bytes.length = count ∧ before.Passes bytes after := by
  cases before with
  | mk start rest =>
      cases after with
      | mk stop rest' =>
          simp only [take]
          constructor
          · intro h
            split at h
            · next hlength =>
                cases h
                refine ⟨hlength, ⟨?_, ?_⟩⟩
                · exact (List.take_append_drop count rest).symm
                · show start + count = start + (rest.take count).length
                  rw [hlength]
            · cases h
          · rintro ⟨rfl, hrest, hposition⟩
            simp only at hrest hposition
            subst hrest hposition
            simp

theorem number_eq_ok {count value : Nat} {before after : Cursor} :
    number count before = .ok (value, after) ↔
      value < capacity count ∧ before.Passes (toLittleEndian count value) after := by
  simp only [number, map_eq_ok, take_eq_ok]
  constructor
  · rintro ⟨bytes, ⟨rfl, hpass⟩, rfl⟩
    exact ⟨littleEndian_lt bytes, by rwa [toLittleEndian_littleEndian]⟩
  · rintro ⟨hlt, hpass⟩
    refine ⟨toLittleEndian count value, ⟨length_toLittleEndian count value, hpass⟩, ?_⟩
    rw [littleEndian_toLittleEndian, Nat.mod_eq_of_lt hlt]

end Reader

/-! ## Reading a format -/

/-- `reader` reads the values that fit, each off what `write` makes of it, and nothing else. -/
abbrev Reads (reader : Reader α) (fits : α → Prop) (write : α → Bytes) : Prop :=
  ∀ (value : α) (before after : Cursor), reader before = .ok (value, after) ↔
    fits value ∧ before.Passes (write value) after

/-- The format has no limit. -/
abbrev Always : α → Prop := fun _ => True

namespace Reader

/-- Values of type `α` are the numbers of `count` bytes, with `toNat` and `ofNat` between. -/
structure IsWord (count : Nat) (ofNat : Nat → α) (toNat : α → Nat) : Prop where
  toNat_lt : ∀ word, toNat word < capacity count
  ofNat_toNat : ∀ word, ofNat (toNat word) = word
  toNat_ofNat : ∀ n, n < capacity count → toNat (ofNat n) = n

theorem isWord_u8 : IsWord 1 UInt8.ofNat UInt8.toNat :=
  ⟨UInt8.toNat_lt, fun _ => UInt8.ofNat_toNat, fun _ hn => UInt8.toNat_ofNat_of_lt' hn⟩

theorem isWord_u16 : IsWord 2 UInt16.ofNat UInt16.toNat :=
  ⟨UInt16.toNat_lt, fun _ => UInt16.ofNat_toNat, fun _ hn => UInt16.toNat_ofNat_of_lt' hn⟩

theorem isWord_u32 : IsWord 4 UInt32.ofNat UInt32.toNat :=
  ⟨UInt32.toNat_lt, fun _ => UInt32.ofNat_toNat, fun _ hn => UInt32.toNat_ofNat_of_lt' hn⟩

theorem isWord_i64 :
    IsWord 8 (fun n => (UInt64.ofNat n).toInt64) (fun word => word.toUInt64.toNat) where
  toNat_lt word := word.toUInt64.toNat_lt
  ofNat_toNat word := by rw [UInt64.ofNat_toNat, Int64.toInt64_toUInt64]
  toNat_ofNat n hn := by rw [UInt64.toUInt64_toInt64, UInt64.toNat_ofNat_of_lt' hn]

theorem reads_word {count : Nat} {ofNat : Nat → α} {toNat : α → Nat}
    (h : IsWord count ofNat toNat) :
    Reads (Reader.map ofNat (number count)) Always
      (fun word => toLittleEndian count (toNat word)) := by
  intro word before after
  simp only [map_eq_ok, number_eq_ok]
  constructor
  · rintro ⟨n, ⟨hn, hpass⟩, rfl⟩
    exact ⟨trivial, by rwa [h.toNat_ofNat n hn]⟩
  · rintro ⟨-, hpass⟩
    exact ⟨toNat word, ⟨h.toNat_lt word, hpass⟩, (h.ofNat_toNat word).symm⟩

theorem u8_eq_ok {byte : UInt8} {before after : Cursor} :
    u8 before = .ok (byte, after) ↔ before.Passes [byte] after := by
  have hlt : byte.toNat < 256 := byte.toNat_lt
  have hbyte : toLittleEndian 1 byte.toNat = [byte] := by
    simp [toLittleEndian, Nat.mod_eq_of_lt hlt]
  rw [← hbyte]
  exact (reads_word isWord_u8 byte before after).trans (iff_of_eq (true_and _))

theorem u16_eq_ok {word : UInt16} {before after : Cursor} :
    u16 before = .ok (word, after) ↔ before.Passes (u16Bytes word) after :=
  (reads_word isWord_u16 word before after).trans (iff_of_eq (true_and _))

theorem u32_eq_ok {word : UInt32} {before after : Cursor} :
    u32 before = .ok (word, after) ↔ before.Passes (u32Bytes word) after :=
  (reads_word isWord_u32 word before after).trans (iff_of_eq (true_and _))

theorem i64_eq_ok {word : Int64} {before after : Cursor} :
    i64 before = .ok (word, after) ↔ before.Passes (i64Bytes word) after :=
  (reads_word isWord_i64 word before after).trans (iff_of_eq (true_and _))

/-- Items are read one by one, and appended to those read before. -/
theorem many_eq_ok {item : Reader α} {fits : α → Prop} {write : α → Bytes}
    (hitem : Reads item fits write) {count : Nat} {done all : Array α}
    {before after : Cursor} :
    many item count done before = .ok (all, after) ↔
      ∃ items : List α, items.length = count ∧ all = done ++ items.toArray ∧
        (∀ value ∈ items, fits value) ∧ before.Passes (items.flatMap write) after := by
  -- what was read so far is in `done`, so the induction has to be for every `done`
  induction count generalizing done before with
  | zero =>
      simp [many, eq_comm]
  | succ count ih =>
      show (item >>= fun value => many item count (done.push value)) before = _ ↔ _
      rw [bind_eq_ok]
      constructor
      · rintro ⟨value, middle, hread, hmany⟩
        obtain ⟨hfit, hpass⟩ := (hitem value before middle).1 hread
        obtain ⟨items, rfl, rfl, hfits, hpasses⟩ := ih.1 hmany
        refine ⟨value :: items, rfl, by simp, ?_, ?_⟩
        · intro other hother
          rcases List.mem_cons.1 hother with rfl | hother
          · exact hfit
          · exact hfits other hother
        · rw [List.flatMap_cons]
          exact Cursor.passes_append.2 ⟨middle, hpass, hpasses⟩
      · rintro ⟨items, hlength, rfl, hfits, hpasses⟩
        cases items with
        | nil => simp at hlength
        | cons value items =>
            rw [List.flatMap_cons] at hpasses
            obtain ⟨middle, hpass, hpasses⟩ := Cursor.passes_append.1 hpasses
            refine ⟨value, middle, (hitem value before middle).2 ⟨hfits value (by simp), hpass⟩,
              ih.2 ⟨items, by simpa using hlength, by simp, ?_, hpasses⟩⟩
            intro other hother
            exact hfits other (List.mem_cons_of_mem value hother)

/-- A table is read with its count in front, which says how many items follow. -/
theorem counted_eq_ok {ω : Type} {item : Reader α} {fits : α → Prop} {write : α → Bytes}
    (hitem : Reads item fits write) {size : Nat} {ofNat : Nat → ω} {toNat : ω → Nat}
    (hword : IsWord size ofNat toNat) {all : Array α} {before after : Cursor} :
    (Reader.map ofNat (number size) >>= fun count => many item (toNat count) #[]) before =
        .ok (all, after) ↔
      (all.size < capacity size ∧ ∀ value ∈ all.toList, fits value) ∧
        before.Passes (toLittleEndian size all.size ++ all.toList.flatMap write) after := by
  simp only [bind_eq_ok, reads_word hword _ _ _, many_eq_ok hitem, Cursor.passes_append, Always,
    true_and]
  constructor
  · rintro ⟨count, middle, hcount, items, hlength, rfl, hfits, hitems⟩
    -- the count that was read is the size of the table, so it is the count that is written
    have hsize : (#[] ++ items.toArray).size = toNat count := by simpa using hlength
    rw [hsize]
    exact ⟨⟨hword.toNat_lt count, by simpa using hfits⟩, middle, hcount, by simpa using hitems⟩
  · rintro ⟨⟨hsize, hfits⟩, middle, hcount, hitems⟩
    refine ⟨ofNat all.size, middle, ?_, all.toList, ?_, by simp, hfits, hitems⟩
    · rwa [hword.toNat_ofNat all.size hsize]
    · rw [hword.toNat_ofNat all.size hsize, Array.length_toList]

end Reader

end LateBinding.Codec
