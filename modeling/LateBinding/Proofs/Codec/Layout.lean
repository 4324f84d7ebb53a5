import LateBinding.Proofs.Codec.Reading
import LateBinding.Proofs.Outcome

set_option autoImplicit false

/-! # What each part of a module is read off

For every part of the layout, the reader reads exactly the parts within the limits of the
format, each off the bytes that encoding writes for it: `reads_readConstant`,
`reads_readField`, `reads_readMethod` and, for the whole, `reads_readModule`. The limits are
those that encoding checks.
-/

namespace LateBinding.Codec

open Reader LateBinding.Module

/-! ## Limits -/

theorem checkTable_eq_ok {table : Table} {count limit : Nat} :
    checkTable table count limit = .ok () ↔ count < limit := by
  simp [checkTable]

theorem checkMarkerCount_eq_ok {markers : List Marker} :
    checkMarkerCount markers = .ok () ↔ markers.length < UInt8.size :=
  checkTable_eq_ok

theorem checkConstant_str {text : String} :
    checkConstant (.str text) = .ok () ↔ (Text.utf8 text).length < UInt32.size := by
  have hlength : (Text.utf8 text).length = text.utf8ByteSize := rfl
  rw [hlength]
  simp [checkConstant]

theorem checkMethodSize_eq_ok {method : Method} :
    checkMethodSize method = .ok () ↔
      method.markers.length < UInt8.size ∧ method.code.size < UInt32.size := by
  simp only [checkMethodSize, Except.bind_eq_ok, Except.exists_unit, checkMarkerCount_eq_ok]
  constructor
  · rintro ⟨hmarkers, hcode⟩
    split at hcode
    · next hlt => exact ⟨hmarkers, hlt⟩
    · cases hcode
  · rintro ⟨hmarkers, hcode⟩
    exact ⟨hmarkers, by rw [if_pos hcode]; rfl⟩

theorem checkLimits_eq_ok {m : Module} :
    m.checkLimits = .ok () ↔
      (m.pool.size < UInt16.size ∧ ∀ c ∈ m.pool.entries.toList, checkConstant c = .ok ()) ∧
      (m.fields.size < UInt16.size ∧
        ∀ field ∈ m.fields.toList, checkMarkerCount field.markers = .ok ()) ∧
      m.methods.size < UInt16.size ∧
        ∀ method ∈ m.methods.toList, checkMethodSize method = .ok () := by
  simp only [checkLimits, Except.bind_eq_ok, Except.exists_unit, checkTable_eq_ok,
    Except.forM_eq_ok, and_assoc]

/-! ## Constants -/

theorem readString_eq_ok {length : Nat} {text : String} {before after : Cursor} :
    readString length before = .ok (text, after) ↔
      (Text.utf8 text).length = length ∧ before.Passes (Text.utf8 text) after := by
  simp only [readString, bind_eq_ok, take_eq_ok]
  constructor
  · rintro ⟨bytes, middle, ⟨rfl, hpass⟩, h⟩
    cases htext : Text.ofUtf8? bytes with
    | none =>
        rw [htext] at h
        exact absurd h fail_ne_ok
    | some found =>
        rw [htext] at h
        obtain ⟨rfl, rfl⟩ := pure_eq_ok.1 h
        rw [Text.utf8_of_ofUtf8? htext]
        exact ⟨rfl, hpass⟩
  · rintro ⟨rfl, hpass⟩
    refine ⟨Text.utf8 text, after, ⟨rfl, hpass⟩, ?_⟩
    rw [Text.ofUtf8?_utf8]
    exact pure_eq_ok.2 ⟨rfl, rfl⟩

theorem reads_readConstant :
    Reads readConstant (fun constant => checkConstant constant = .ok ()) Constant.bytes := by
  intro constant before after
  simp only [readConstant, bind_eq_ok, u8_eq_ok]
  constructor
  · rintro ⟨tag, middle, htag, h⟩
    split at h
    · next hstr =>
        simp only [bind_eq_ok, u32_eq_ok, readString_eq_ok, pure_eq_ok] at h
        obtain ⟨length, inner, hlength, text, last, ⟨heq, htext⟩, rfl, rfl⟩ := h
        -- the length was read off four bytes, so the string is not too long for them
        have hfits : (Text.utf8 text).length < UInt32.size := by
          rw [heq]
          exact length.toNat_lt
        rw [hstr] at htag
        rw [u32Bytes, ← heq] at hlength
        refine ⟨checkConstant_str.2 hfits, ?_⟩
        exact Cursor.passes_cons.2 ⟨middle, htag, Cursor.passes_append.2 ⟨inner, hlength, htext⟩⟩
    · split at h
      · next hint =>
          simp only [bind_eq_ok, i64_eq_ok, pure_eq_ok] at h
          obtain ⟨value, inner, hvalue, rfl, rfl⟩ := h
          rw [hint] at htag
          exact ⟨rfl, Cursor.passes_cons.2 ⟨middle, htag, hvalue⟩⟩
      · exact absurd h fail_ne_ok
  · rintro ⟨hfits, hpass⟩
    cases constant with
    | str text =>
        rw [checkConstant_str] at hfits
        rw [Constant.bytes] at hpass
        obtain ⟨middle, htag, hcontent⟩ := Cursor.passes_cons.1 hpass
        obtain ⟨inner, hlength, htext⟩ := Cursor.passes_append.1 hcontent
        refine ⟨stringTag, middle, htag, ?_⟩
        rw [if_pos rfl]
        simp only [bind_eq_ok, u32_eq_ok, readString_eq_ok, pure_eq_ok]
        have hword := UInt32.toNat_ofNat_of_lt' hfits
        refine ⟨UInt32.ofNat (Text.utf8 text).length, inner, ?_, text, after,
          ⟨hword.symm, htext⟩, rfl, rfl⟩
        rwa [u32Bytes, hword]
    | int value =>
        obtain ⟨middle, htag, hvalue⟩ := Cursor.passes_cons.1 hpass
        refine ⟨intTag, middle, htag, ?_⟩
        rw [if_neg (by decide), if_pos rfl]
        simp only [bind_eq_ok, i64_eq_ok, pure_eq_ok]
        exact ⟨value, after, hvalue, rfl, rfl⟩

/-! ## Markers and fields -/

theorem reads_readMarker : Reads readMarker Always Marker.bytes := by
  intro marker before after
  simp only [readMarker, bind_eq_ok, pure_eq_ok, u16_eq_ok, Marker.bytes,
    Cursor.passes_append, Always, true_and]
  constructor
  · rintro ⟨kind, middle, hkind, value, last, hvalue, rfl, rfl⟩
    exact ⟨middle, hkind, hvalue⟩
  · rintro ⟨middle, hkind, hvalue⟩
    exact ⟨marker.kind, middle, hkind, marker.value, after, hvalue, rfl, rfl⟩

theorem reads_readMarkers :
    Reads readMarkers (fun markers => checkMarkerCount markers = .ok ()) markersBytes := by
  intro markers before after
  have htable : (u8 >>= fun count => many readMarker count.toNat #[]) before =
        .ok (markers.toArray, after) ↔ _ :=
    counted_eq_ok reads_readMarker isWord_u8
  have hlist : readMarkers before = .ok (markers, after) ↔
      (u8 >>= fun count => many readMarker count.toNat #[]) before =
        .ok (markers.toArray, after) := by
    simp only [readMarkers, bind_eq_ok, pure_eq_ok]
    constructor
    · rintro ⟨count, middle, hcount, all, last, hall, rfl, rfl⟩
      exact ⟨count, middle, hcount, by simpa using hall⟩
    · rintro ⟨count, middle, hcount, hall⟩
      exact ⟨count, middle, hcount, markers.toArray, after, hall, by simp, rfl⟩
  rw [hlist, htable]
  show _ ↔ checkMarkerCount markers = .ok () ∧ _
  rw [checkMarkerCount_eq_ok]
  simp [Always, markersBytes, capacity, UInt8.size]

theorem reads_readField :
    Reads readField (fun field => checkMarkerCount field.markers = .ok ()) Field.bytes := by
  intro field before after
  simp only [readField, bind_eq_ok, pure_eq_ok, u16_eq_ok, reads_readMarkers _ _ _,
    Field.bytes, Cursor.passes_append]
  constructor
  · rintro ⟨name, middle, hname, markers, last, ⟨hfits, hmarkers⟩, rfl, rfl⟩
    exact ⟨hfits, middle, hname, hmarkers⟩
  · rintro ⟨hfits, middle, hname, hmarkers⟩
    exact ⟨field.name, middle, hname, field.markers, after, ⟨hfits, hmarkers⟩, rfl, rfl⟩

/-! ## Instructions -/

/-- The operands are read that belong to the opcode. -/
theorem readOperands_eq_ok {opcode : UInt8} {start : Nat} {insn : Instruction}
    {before after : Cursor} :
    readOperands opcode start before = .ok (insn, after) ↔
      insn.opcode = opcode ∧ before.Passes insn.operandBytes after := by
  constructor
  · intro h
    unfold readOperands at h
    split at h
    -- no operands
    case h_1 | h_2 | h_9 | h_10 | h_12 | h_13 | h_16 =>
      obtain ⟨rfl, rfl⟩ := pure_eq_ok.1 h
      exact ⟨rfl, Cursor.passes_nil.2 rfl⟩
    -- a dynamic call
    case h_11 =>
      simp only [bind_eq_ok, pure_eq_ok, u16_eq_ok] at h
      obtain ⟨symbol, middle, hsymbol, slot, last, hslot, rfl, rfl⟩ := h
      exact ⟨rfl, Cursor.passes_append.2 ⟨middle, hsymbol, hslot⟩⟩
    -- no instruction
    case h_17 => exact absurd h fail_ne_ok
    -- one operand
    all_goals
      simp only [map_eq_ok, u8_eq_ok, u16_eq_ok, u32_eq_ok, i64_eq_ok] at h
      obtain ⟨value, hpass, rfl⟩ := h
      exact ⟨rfl, hpass⟩
  · rintro ⟨rfl, hpass⟩
    cases insn with
    | nop | pushNull | add | concat | pop | dup | ret =>
        exact pure_eq_ok.2 ⟨rfl, Cursor.passes_nil.1 hpass⟩
    | invokeDynamic symbol slot =>
        obtain ⟨middle, hsymbol, hslot⟩ := Cursor.passes_append.1 hpass
        simp only [Instruction.opcode, readOperands, bind_eq_ok, pure_eq_ok, u16_eq_ok]
        exact ⟨symbol, middle, hsymbol, slot, after, hslot, rfl, rfl⟩
    | pushInt operand => exact map_eq_ok.2 ⟨operand, i64_eq_ok.2 hpass, rfl⟩
    | loadLocal operand | storeLocal operand =>
        exact map_eq_ok.2 ⟨operand, u8_eq_ok.2 hpass, rfl⟩
    | pushConst operand | getField operand | putField operand =>
        exact map_eq_ok.2 ⟨operand, u16_eq_ok.2 hpass, rfl⟩
    | jump operand | jumpIfNull operand =>
        exact map_eq_ok.2 ⟨operand, u32_eq_ok.2 hpass, rfl⟩

theorem reads_readInstruction : Reads readInstruction Always Instruction.bytes := by
  intro insn before after
  -- the position is read only to be reported, and it passes nothing
  have hstart : (Reader.position >>= fun start => u8 >>= fun opcode =>
      readOperands opcode start) before = (u8 >>= fun opcode =>
      readOperands opcode before.position) before := rfl
  rw [readInstruction, hstart]
  simp only [bind_eq_ok, u8_eq_ok, readOperands_eq_ok, Always, true_and]
  rw [Instruction.bytes, Cursor.passes_cons]
  constructor
  · rintro ⟨opcode, middle, hopcode, rfl, hoperands⟩
    exact ⟨middle, hopcode, hoperands⟩
  · rintro ⟨middle, hopcode, hoperands⟩
    exact ⟨insn.opcode, middle, hopcode, rfl, hoperands⟩

/-- An instruction takes a byte at least, so a list of them takes a byte each at least. -/
theorem length_le_length_instructions (code : List Instruction) :
    code.length ≤ (code.flatMap Instruction.bytes).length := by
  induction code with
  | nil => exact Nat.zero_le _
  | cons insn code ih =>
      rw [List.flatMap_cons, List.length_append, Instruction.bytes, List.length_cons,
        List.length_cons]
      omega

theorem guardCode_eq_ok {count : Nat} {u : Unit} {before after : Cursor} :
    guardCode count before = .ok (u, after) ↔ count ≤ before.rest.length ∧ after = before := by
  have hlength : (before.rest.take count).length = count ↔ count ≤ before.rest.length := by
    rw [List.length_take]
    omega
  unfold guardCode
  split
  · next hle => simp [hlength.1 hle, eq_comm]
  · next hnot => simp [mt hlength.2 hnot]

/-- The guard rejects no genuine code: it asks for no more bytes than the code takes. -/
theorem reads_readCode :
    Reads readCode (fun code => code.size < UInt32.size) codeBytes := by
  intro code before after
  have htable : (u32 >>= fun count => many readInstruction count.toNat #[]) before =
        .ok (code, after) ↔ _ :=
    counted_eq_ok reads_readInstruction isWord_u32
  have hguard : readCode before = .ok (code, after) ↔
      (u32 >>= fun count => many readInstruction count.toNat #[]) before =
        .ok (code, after) := by
    simp only [readCode, bind_eq_ok, guardCode_eq_ok]
    constructor
    · rintro ⟨count, middle, hcount, -, last, ⟨-, rfl⟩, hcode⟩
      exact ⟨count, last, hcount, hcode⟩
    · rintro ⟨count, middle, hcount, hcode⟩
      refine ⟨count, middle, hcount, (), middle, ⟨?_, rfl⟩, hcode⟩
      -- the instructions stand in the rest of the input, where each takes a byte at least
      obtain ⟨items, hlength, -, -, hpass⟩ := (many_eq_ok reads_readInstruction).1 hcode
      have hle := length_le_length_instructions items
      rw [hpass.rest_eq, List.length_append]
      omega
  rw [hguard, htable]
  simp [Always, codeBytes, capacity, UInt32.size]

/-! ## Methods and modules -/

theorem reads_readMethod :
    Reads readMethod (fun method => checkMethodSize method = .ok ()) Method.bytes := by
  intro method before after
  show _ ↔ checkMethodSize method = .ok () ∧ _
  simp only [readMethod, bind_eq_ok, pure_eq_ok, u16_eq_ok, u8_eq_ok, reads_readMarkers _ _ _,
    reads_readCode _ _ _, Method.bytes, Cursor.passes_append, checkMethodSize_eq_ok,
    checkMarkerCount_eq_ok]
  constructor
  · rintro ⟨name, c₁, hname, params, c₂, hparams, locals, c₃, hlocals, markers, c₄,
      ⟨hfits, hmarkers⟩, code, c₅, ⟨hsize, hcode⟩, rfl, rfl⟩
    exact ⟨⟨hfits, hsize⟩, c₄, ⟨c₃, ⟨c₁, hname, Cursor.passes_cons.2 ⟨c₂, hparams, hlocals⟩⟩,
      hmarkers⟩, hcode⟩
  · rintro ⟨⟨hfits, hsize⟩, c₄, ⟨c₃, ⟨c₁, hname, hslots⟩, hmarkers⟩, hcode⟩
    obtain ⟨c₂, hparams, hlocals⟩ := Cursor.passes_cons.1 hslots
    exact ⟨method.name, c₁, hname, method.params, c₂, hparams, method.locals, c₃, hlocals,
      method.markers, c₄, ⟨hfits, hmarkers⟩, method.code, after, ⟨hsize, hcode⟩, rfl, rfl⟩

theorem readMagic_eq_ok {u : Unit} {before after : Cursor} :
    readMagic before = .ok (u, after) ↔ before.Passes magic after := by
  simp only [readMagic, bind_eq_ok, take_eq_ok]
  constructor
  · rintro ⟨found, middle, ⟨-, hpass⟩, h⟩
    split at h
    · next heq =>
        obtain ⟨-, rfl⟩ := pure_eq_ok.1 h
        rwa [heq] at hpass
    · exact absurd h fail_ne_ok
  · intro hpass
    exact ⟨magic, after, ⟨rfl, hpass⟩, by rw [if_pos rfl]; exact pure_eq_ok.2 ⟨rfl, rfl⟩⟩

theorem readVersion_eq_ok {u : Unit} {before after : Cursor} :
    readVersion before = .ok (u, after) ↔ before.Passes (u16Bytes version) after := by
  simp only [readVersion, bind_eq_ok, u16_eq_ok]
  constructor
  · rintro ⟨found, middle, hpass, h⟩
    split at h
    · next heq =>
        obtain ⟨-, rfl⟩ := pure_eq_ok.1 h
        rwa [heq] at hpass
    · exact absurd h fail_ne_ok
  · intro hpass
    exact ⟨version, after, hpass, by rw [if_pos rfl]; exact pure_eq_ok.2 ⟨rfl, rfl⟩⟩

/-- A table of a module: a count of two bytes, and so many items. -/
theorem table_eq_ok {α : Type} {item : Reader α} {fits : α → Prop} {write : α → Bytes}
    (hitem : Reads item fits write) {all : Array α} {before after : Cursor} :
    (∃ count middle, u16 before = .ok (count, middle) ∧
        many item count.toNat #[] middle = .ok (all, after)) ↔
      (all.size < UInt16.size ∧ ∀ value ∈ all.toList, fits value) ∧
        before.Passes (toLittleEndian 2 all.size ++ all.toList.flatMap write) after :=
  bind_eq_ok.symm.trans (counted_eq_ok hitem isWord_u16)

theorem reads_readModule :
    Reads readModule (fun m => m.checkLimits = .ok ()) Module.bytes := by
  intro m before after
  show _ ↔ m.checkLimits = .ok () ∧ _
  simp only [readModule, bind_eq_ok, pure_eq_ok, readMagic_eq_ok, readVersion_eq_ok, u16_eq_ok,
    checkLimits_eq_ok, Module.bytes]
  constructor
  · rintro ⟨-, c₁, hmagic, -, c₂, hversion, name, c₃, hname,
      n₁, c₄, hn₁, constants, c₅, hconstants, n₂, c₆, hn₂, fields, c₇, hfields,
      n₃, c₈, hn₃, methods, c₉, hmethods, rfl, rfl⟩
    obtain ⟨hpool, hconstants⟩ :=
      (table_eq_ok reads_readConstant).1 ⟨n₁, c₄, u16_eq_ok.2 hn₁, hconstants⟩
    obtain ⟨hfield, hfields⟩ :=
      (table_eq_ok reads_readField).1 ⟨n₂, c₆, u16_eq_ok.2 hn₂, hfields⟩
    obtain ⟨hmethod, hmethods⟩ :=
      (table_eq_ok reads_readMethod).1 ⟨n₃, c₈, u16_eq_ok.2 hn₃, hmethods⟩
    refine ⟨⟨hpool, hfield, hmethod⟩, ?_⟩
    -- the parts stand one after the other, so the cursors between them can be forgotten
    have hstart := Cursor.passes_append.2 ⟨c₁, hmagic, hversion⟩
    have hheader := Cursor.passes_append.2 ⟨c₂, hstart, hname⟩
    exact Cursor.passes_append.2 ⟨c₇, Cursor.passes_append.2 ⟨c₅,
      Cursor.passes_append.2 ⟨c₃, hheader, hconstants⟩, hfields⟩, hmethods⟩
  · rintro ⟨⟨hpool, hfield, hmethod⟩, hpass⟩
    obtain ⟨c₇, hpass, hmethods⟩ := Cursor.passes_append.1 hpass
    obtain ⟨c₅, hpass, hfields⟩ := Cursor.passes_append.1 hpass
    obtain ⟨c₃, hheader, hconstants⟩ := Cursor.passes_append.1 hpass
    obtain ⟨c₂, hfront, hname⟩ := Cursor.passes_append.1 hheader
    obtain ⟨c₁, hmagic, hversion⟩ := Cursor.passes_append.1 hfront
    obtain ⟨n₁, c₄, hn₁, hconstants⟩ := (table_eq_ok reads_readConstant).2 ⟨hpool, hconstants⟩
    obtain ⟨n₂, c₆, hn₂, hfields⟩ := (table_eq_ok reads_readField).2 ⟨hfield, hfields⟩
    obtain ⟨n₃, c₈, hn₃, hmethods⟩ := (table_eq_ok reads_readMethod).2 ⟨hmethod, hmethods⟩
    exact ⟨(), c₁, hmagic, (), c₂, hversion, m.name, c₃, hname,
      n₁, c₄, u16_eq_ok.1 hn₁, m.pool.entries, c₅, hconstants,
      n₂, c₆, u16_eq_ok.1 hn₂, m.fields, c₇, hfields,
      n₃, c₈, u16_eq_ok.1 hn₃, m.methods, after, hmethods, rfl, rfl⟩

end LateBinding.Codec
