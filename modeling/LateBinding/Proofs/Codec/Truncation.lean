import LateBinding.Proofs.Codec.RoundTrip

set_option autoImplicit false

/-! # Cut and extended modules

No module is the beginning of another. `Starves reader bytes` says of a reader that would take
`bytes` that it fails on every beginning of them that is not all of them, and for want of bytes:
the cause is one of `FormatError.BreaksOff`. Starving goes from the parts of the layout to the
whole like reading does. Where two readers follow each other, the cut falls either into what the
first one takes, which starves it, or behind that into what the second one takes
(`Starves.bind`).

That bytes are left over is no matter of starving: a reader takes the same from longer input, so
all that was added is found behind the last method. `decode_prefix_free` says both of decoding.
-/

namespace LateBinding

/-- The cause is that input of `length` bytes breaks off: at its end more bytes are due than are
left, or more instructions are announced than bytes are left. -/
inductive FormatError.BreaksOff (length : Nat) : FormatError → Prop
  | bytes {position needed available : Nat} (total : position + available = length)
      (short : available < needed) : BreaksOff length (.unexpectedEnd position needed available)
  | code {count available : Nat} (short : available < count) :
      BreaksOff length (.codeTooLong count available)

namespace Codec

open Reader

variable {α β : Type}

/-- The reader fails for want of bytes where it is given a beginning of `bytes` that is not all
of them. -/
def Starves (reader : Reader α) (bytes : Bytes) : Prop :=
  ∀ (position : Nat) (cut missing : Bytes), missing ≠ [] → bytes = cut ++ missing →
    ∃ cause, reader ⟨position, cut⟩ = .error cause ∧ cause.BreaksOff (position + cut.length)

/-- A reader of a format starves on each value that fits. -/
abbrev Needs (reader : Reader α) (fits : α → Prop) (write : α → Bytes) : Prop :=
  ∀ value, fits value → Starves reader (write value)

namespace Starves

/-! ## Readers in sequence -/

/-- What comes after a reader that starves is never reached. -/
theorem before {reader : Reader α} {bytes : Bytes} (h : Starves reader bytes)
    (next : α → Reader β) : Starves (reader >>= next) bytes := by
  intro position cut missing hmissing hbytes
  obtain ⟨cause, hread, hcause⟩ := h position cut missing hmissing hbytes
  refine ⟨cause, ?_, hcause⟩
  show Reader.bind reader next ⟨position, cut⟩ = _
  rw [Reader.bind, hread]

/-- A cut through two strings of bytes leaves the first one whole or goes through it. -/
theorem cut_append {front back cut missing : Bytes} (h : front ++ back = cut ++ missing) :
    (∃ inner, cut = front ++ inner ∧ back = inner ++ missing) ∨
      ∃ inner, inner ≠ [] ∧ front = cut ++ inner := by
  rcases List.append_eq_append_iff.1 h with hwhole | ⟨inner, hfront, hback⟩
  · exact .inl hwhole
  · cases inner with
    | nil => exact .inl ⟨[], by simpa using hfront.symm, hback.symm⟩
    | cons byte inner => exact .inr ⟨byte :: inner, List.cons_ne_nil _ _, hfront⟩

/-- **Starving goes from two readers to their sequence**, where the first one reads `a` off
`front`. -/
theorem bind {first : Reader α} {next : α → Reader β} {front back : Bytes} {a : α}
    (hfirst : Starves first front)
    (hread : ∀ before after : Cursor, before.Passes front after → first before = .ok (a, after))
    (hnext : Starves (next a) back) : Starves (first >>= next) (front ++ back) := by
  intro position cut missing hmissing hbytes
  rcases cut_append hbytes with ⟨inner, rfl, hback⟩ | ⟨inner, hinner, hfront⟩
  · obtain ⟨cause, hfails, hcause⟩ := hnext (position + front.length) inner missing hmissing hback
    refine ⟨cause, ?_, ?_⟩
    · show Reader.bind first next ⟨position, front ++ inner⟩ = _
      rw [Reader.bind, hread _ ⟨position + front.length, inner⟩ ⟨rfl, rfl⟩]
      exact hfails
    · rwa [List.length_append, ← Nat.add_assoc]
  · exact hfirst.before next position cut inner hinner hfront

/-! ## Numbers -/

theorem take {bytes : Bytes} {count : Nat} (h : bytes.length = count) :
    Starves (Reader.take count) bytes := by
  intro position cut missing hmissing hbytes
  have hpositive : 0 < missing.length := List.length_pos_iff.2 hmissing
  have hlength : cut.length + missing.length = count := by
    rw [← h, hbytes, List.length_append]
  have htaken : ¬ (cut.take count).length = count := by
    rw [List.length_take]
    omega
  refine ⟨_, ?_, .bytes rfl (by omega : cut.length < count)⟩
  rw [Reader.take, if_neg htaken]

/-- A number is due with all of its bytes. -/
theorem word {count : Nat} {ofNat : Nat → α} {bytes : Bytes} (h : bytes.length = count) :
    Starves (Reader.map ofNat (number count)) bytes :=
  ((take h).before _).before _

theorem u8 (byte : UInt8) : Starves Reader.u8 [byte] := word rfl

theorem u16 (value : UInt16) : Starves Reader.u16 (u16Bytes value) :=
  word (length_toLittleEndian 2 _)

theorem u32 (value : UInt32) : Starves Reader.u32 (u32Bytes value) :=
  word (length_toLittleEndian 4 _)

theorem i64 (value : Int64) : Starves Reader.i64 (i64Bytes value) :=
  word (length_toLittleEndian 8 _)

/-! ## Tables -/

/-- The cut goes through one of the items, and those before it are read. -/
theorem many {item : Reader α} {fits : α → Prop} {write : α → Bytes}
    (hitem : Reads item fits write) (hneeds : Needs item fits write) {items : List α}
    (hfits : ∀ value ∈ items, fits value) (done : Array α) :
    Starves (Reader.many item items.length done) (items.flatMap write) := by
  induction items generalizing done with
  | nil =>
      intro position cut missing hmissing hbytes
      exact absurd (List.nil_eq_append_iff.1 hbytes).2 hmissing
  | cons value items ih =>
      obtain ⟨hvalue, hitems⟩ := List.forall_mem_cons.1 hfits
      have hread (before after : Cursor) (hpass : before.Passes (write value) after) :
          item before = .ok (value, after) := (hitem value before after).2 ⟨hvalue, hpass⟩
      show Starves (item >>= fun value => Reader.many item items.length (done.push value)) _
      rw [List.flatMap_cons]
      exact (hneeds value hvalue).bind hread (ih hitems _)

/-- A table and what follows it. -/
theorem table {ω : Type} {item : Reader α} {fits : α → Prop} {write : α → Bytes}
    (hitem : Reads item fits write) (hneeds : Needs item fits write) {size : Nat}
    {ofNat : Nat → ω} {toNat : ω → Nat} (hword : IsWord size ofNat toNat) {all : Array α}
    (hsize : all.size < capacity size) (hfits : ∀ value ∈ all.toList, fits value)
    (next : Array α → Reader β) {back : Bytes} (hnext : Starves (next all) back) :
    Starves (Reader.map ofNat (number size) >>= fun count =>
        Reader.many item (toNat count) #[] >>= next)
      (toLittleEndian size all.size ++ (all.toList.flatMap write ++ back)) := by
  have hcount (before after : Cursor) (hpass : before.Passes (toLittleEndian size all.size) after) :
      Reader.map ofNat (number size) before = .ok (ofNat all.size, after) := by
    refine (reads_word hword _ before after).2 ⟨trivial, ?_⟩
    show before.Passes (toLittleEndian size (toNat (ofNat all.size))) after
    rwa [hword.toNat_ofNat all.size hsize]
  have hitems (before after : Cursor) (hpass : before.Passes (all.toList.flatMap write) after) :
      Reader.many item all.size #[] before = .ok (all, after) :=
    (many_eq_ok hitem).2 ⟨all.toList, Array.length_toList, by simp, hfits, hpass⟩
  refine (word (length_toLittleEndian size _)).bind hcount ?_
  rw [hword.toNat_ofNat all.size hsize]
  have hmany : Starves (Reader.many item all.size #[]) (all.toList.flatMap write) :=
    many hitem hneeds hfits #[]
  exact hmany.bind hitems hnext

/-- Where no bytes are due, none can be missing. -/
theorem pure (value : α) : Starves (Pure.pure value : Reader α) [] := by
  intro position cut missing hmissing hbytes
  exact absurd (List.nil_eq_append_iff.1 hbytes).2 hmissing

end Starves

/-! ## The parts of a module -/

theorem needs_readConstant :
    Needs readConstant (fun constant => Module.checkConstant constant = .ok ()) Constant.bytes := by
  intro constant hfits
  cases constant with
  | str text =>
      rw [checkConstant_str] at hfits
      have hlength : (UInt32.ofNat (Text.utf8 text).length).toNat = (Text.utf8 text).length :=
        UInt32.toNat_ofNat_of_lt' hfits
      refine (Starves.u8 stringTag).bind (fun _ _ => u8_eq_ok.2) ?_
      rw [if_pos rfl]
      refine (Starves.word (length_toLittleEndian 4 _)).bind
        (a := UInt32.ofNat (Text.utf8 text).length) (fun before after hpass => ?_) ?_
      · refine u32_eq_ok.2 ?_
        rwa [u32Bytes, hlength]
      · exact ((Starves.take hlength.symm).before _).before _
  | int value =>
      refine (Starves.u8 intTag).bind (fun _ _ => u8_eq_ok.2) ?_
      rw [if_neg (by decide), if_pos rfl]
      exact (Starves.i64 value).before _

theorem needs_readMarker : Needs readMarker Always Marker.bytes := by
  intro marker _
  exact (Starves.u16 marker.kind).bind (fun _ _ => u16_eq_ok.2)
    ((Starves.u16 marker.value).before _)

theorem needs_readMarkers :
    Needs readMarkers (fun markers => Module.checkMarkerCount markers = .ok ()) markersBytes := by
  intro markers hfits
  rw [checkMarkerCount_eq_ok] at hfits
  have htable : Starves readMarkers (toLittleEndian 1 markers.length ++
      (markers.flatMap Marker.bytes ++ [])) :=
    Starves.table reads_readMarker needs_readMarker isWord_u8 hfits (fun _ _ => trivial)
      (fun all => Pure.pure all.toList) (Starves.pure markers)
  rwa [List.append_nil] at htable

theorem needs_readField :
    Needs readField (fun field => Module.checkMarkerCount field.markers = .ok ()) Field.bytes := by
  intro field hfits
  exact (Starves.u16 field.name).bind (fun _ _ => u16_eq_ok.2)
    ((needs_readMarkers field.markers hfits).before _)

theorem needs_readOperands (insn : Instruction) (position : Nat) :
    Starves (readOperands insn.opcode position) insn.operandBytes := by
  cases insn with
  | nop | pushNull | add | concat | pop | dup | ret => exact Starves.pure _
  | invokeDynamic symbol slot =>
      exact (Starves.u16 symbol).bind (fun _ _ => u16_eq_ok.2) ((Starves.u16 slot).before _)
  | pushInt operand => exact (Starves.i64 operand).before _
  | loadLocal operand | storeLocal operand => exact (Starves.u8 operand).before _
  | pushConst operand | getField operand | putField operand =>
      exact (Starves.u16 operand).before _
  | jump operand | jumpIfNull operand => exact (Starves.u32 operand).before _

theorem needs_readInstruction : Needs readInstruction Always Instruction.bytes := by
  intro insn _ position cut missing hmissing hbytes
  -- the position is read only to be reported, and it passes nothing
  have hstart : readInstruction ⟨position, cut⟩ =
      (u8 >>= fun opcode => readOperands opcode position) ⟨position, cut⟩ := rfl
  rw [hstart]
  exact (Starves.u8 insn.opcode).bind (fun _ _ => u8_eq_ok.2) (needs_readOperands insn position)
    position cut missing hmissing hbytes

/-- Code that is cut is refused by the guard, or starves where the cut goes through it. -/
theorem needs_readCode : Needs readCode (fun code => code.size < UInt32.size) codeBytes := by
  intro code hfits
  have hlength : (UInt32.ofNat code.size).toNat = code.size := UInt32.toNat_ofNat_of_lt' hfits
  refine (Starves.word (length_toLittleEndian 4 _)).bind (a := UInt32.ofNat code.size)
    (fun before after hpass => ?_) ?_
  · refine u32_eq_ok.2 ?_
    rwa [u32Bytes, hlength]
  · rw [hlength]
    intro position cut missing hmissing hbytes
    -- the guard counts a byte for each instruction, so it may let a cut pass
    by_cases hcount : code.size ≤ cut.length
    · have hguard : guardCode code.size ⟨position, cut⟩ = .ok ((), ⟨position, cut⟩) :=
        guardCode_eq_ok.2 ⟨hcount, rfl⟩
      show ∃ cause, Reader.bind (guardCode code.size) _ ⟨position, cut⟩ = .error cause ∧ _
      rw [Reader.bind, hguard]
      exact Starves.many reads_readInstruction needs_readInstruction (fun _ _ => trivial) #[]
        position cut missing hmissing hbytes
    · have htaken : ¬ (cut.take code.size).length = code.size := by
        rw [List.length_take]
        omega
      refine ⟨_, ?_, .code (Nat.not_le.1 hcount)⟩
      show Reader.bind (guardCode code.size) _ ⟨position, cut⟩ = _
      rw [Reader.bind, guardCode, if_neg htaken]

theorem needs_readMethod :
    Needs readMethod (fun method => Module.checkMethodSize method = .ok ()) Method.bytes := by
  intro method hfits
  obtain ⟨hmarkers, hcode⟩ := checkMethodSize_eq_ok.1 hfits
  have hmarkers := checkMarkerCount_eq_ok.2 hmarkers
  have hbytes : method.bytes = u16Bytes method.name ++ ([method.params] ++ ([method.locals] ++
      (markersBytes method.markers ++ codeBytes method.code))) := by
    simp only [Method.bytes, List.append_assoc, List.cons_append, List.nil_append]
  rw [hbytes]
  exact (Starves.u16 method.name).bind (fun _ _ => u16_eq_ok.2)
    ((Starves.u8 method.params).bind (fun _ _ => u8_eq_ok.2)
      ((Starves.u8 method.locals).bind (fun _ _ => u8_eq_ok.2)
        ((needs_readMarkers method.markers hmarkers).bind
          (fun before after hpass =>
            (reads_readMarkers method.markers before after).2 ⟨hmarkers, hpass⟩)
          ((needs_readCode method.code hcode).before _))))

theorem needs_readModule :
    Needs readModule (fun m => m.checkLimits = .ok ()) Module.bytes := by
  intro m hfits
  obtain ⟨⟨hpool, hconstants⟩, ⟨hfieldCount, hfields⟩, hmethodCount, hmethods⟩ :=
    checkLimits_eq_ok.1 hfits
  simp only [Module.bytes, List.append_assoc]
  have hmagic : Starves readMagic magic := (Starves.take rfl).before _
  have hversion : Starves readVersion (u16Bytes version) := (Starves.u16 version).before _
  refine hmagic.bind (a := ()) (fun _ _ => readMagic_eq_ok.2) ?_
  refine hversion.bind (a := ()) (fun _ _ => readVersion_eq_ok.2) ?_
  refine (Starves.u16 m.name).bind (fun _ _ => u16_eq_ok.2) ?_
  refine Starves.table reads_readConstant needs_readConstant isWord_u16 hpool hconstants _ ?_
  refine Starves.table reads_readField needs_readField isWord_u16 hfieldCount hfields _ ?_
  have hmethods := Starves.table reads_readMethod needs_readMethod isWord_u16 hmethodCount hmethods
    (fun methods => Pure.pure { m with methods }) (Starves.pure m)
  rwa [List.append_nil] at hmethods

/-! ## Decoding -/

/-- A module is read off the front of longer input, and the rest is left. -/
theorem readModule_append {m : Module} {bytes : Bytes} (h : encode m = .ok bytes) (more : Bytes) :
    readModule ⟨0, bytes ++ more⟩ = .ok (m, ⟨0 + bytes.length, more⟩) := by
  obtain ⟨hlimits, rfl⟩ := encode_eq_ok_iff.1 h
  exact (reads_readModule m _ _).2 ⟨hlimits, rfl, rfl⟩

theorem decode_append {m : Module} {bytes : Bytes} (h : encode m = .ok bytes) {more : Bytes}
    (hmore : more ≠ []) : decode (bytes ++ more) = .error (.trailing more.length) := by
  have hparse : parse (bytes ++ more) = .error (.trailing more.length) := by
    rw [parse, readModule_append h more]
    exact if_neg (mt List.isEmpty_iff.1 hmore)
  rw [decode, hparse]
  rfl

theorem decode_take {m : Module} {bytes : Bytes} (h : encode m = .ok bytes) {k : Nat}
    (hk : k < bytes.length) :
    ∃ cause, decode (bytes.take k) = .error cause ∧ cause.BreaksOff k := by
  obtain ⟨hlimits, rfl⟩ := encode_eq_ok_iff.1 h
  have hmissing : m.bytes.drop k ≠ [] := mt List.drop_eq_nil_iff.1 (Nat.not_le.2 hk)
  obtain ⟨cause, hfails, hcause⟩ := needs_readModule m hlimits 0 (m.bytes.take k)
    (m.bytes.drop k) hmissing (List.take_append_drop k m.bytes).symm
  have hlength : 0 + (m.bytes.take k).length = k := by
    rw [List.length_take]
    omega
  rw [hlength] at hcause
  refine ⟨cause, ?_, hcause⟩
  rw [decode, parse, hfails]
  rfl

/-- **No module is the beginning of another.** The bytes of a module, cut anywhere, are refused
for want of bytes: what is left at the position that is reported reaches to the cut, and is less
than what is due there, or it is less than the count of instructions that is reported. Followed by
anything, the bytes of a module are refused for just so many bytes after the last method. -/
theorem decode_prefix_free {bytes : Bytes} {m : Module} (h : decode bytes = .ok m) :
    (∀ k, k < bytes.length → ∃ cause, decode (bytes.take k) = .error cause ∧
      ((∃ position needed available, cause = .unexpectedEnd position needed available ∧
          cause.message =
            s!"unexpected end of module at byte {position} (needed {needed}, have {available})" ∧
          position + available = k ∧ available < needed) ∨
        ∃ count available, cause = .codeTooLong count available ∧
          cause.message = s!"instruction count {count} exceeds remaining {available} bytes" ∧
          available < count)) ∧
    ∀ more, more ≠ [] → decode (bytes ++ more) = .error (.trailing more.length) ∧
      (FormatError.trailing more.length).message =
        s!"{more.length} trailing bytes after last method" := by
  have hencode := (decode_eq_ok_iff.1 h).1
  refine ⟨?_, ?_⟩
  · intro k hk
    obtain ⟨cause, hfails, hcause⟩ := decode_take hencode hk
    refine ⟨cause, hfails, ?_⟩
    cases hcause with
    | bytes total short => exact .inl ⟨_, _, _, rfl, rfl, total, short⟩
    | code short => exact .inr ⟨_, _, rfl, rfl, short⟩
  · intro more hmore
    exact ⟨decode_append hencode hmore, rfl⟩

theorem decode_prefix_free_sample :
    decode sample.bytes = .ok sample ∧
      (∀ k, k < 78 → ∃ cause, decode (sample.bytes.take k) = .error cause ∧
        ((∃ position needed available, cause = .unexpectedEnd position needed available ∧
            position + available = k ∧ available < needed) ∨
          ∃ count available, cause = .codeTooLong count available ∧ available < count)) ∧
      decode (sample.bytes ++ [0]) = .error (.trailing 1) := by
  have hdecode : decode sample.bytes = .ok sample := decode_eq_ok_iff.2 ⟨rfl, rfl⟩
  have hlength : sample.bytes.length = 78 := rfl
  obtain ⟨hcut, hmore⟩ := decode_prefix_free hdecode
  refine ⟨hdecode, ?_, (hmore [0] (List.cons_ne_nil _ _)).1⟩
  intro k hk
  obtain ⟨cause, hfails, hcause⟩ := hcut k (hlength.symm ▸ hk)
  refine ⟨cause, hfails, ?_⟩
  rcases hcause with ⟨position, needed, available, heq, -, hshort⟩ | ⟨count, available, heq, -, hlt⟩
  · exact .inl ⟨position, needed, available, heq, hshort⟩
  · exact .inr ⟨count, available, heq, hlt⟩

end Codec

end LateBinding
