import LateBinding.Proofs.Codec.RoundTrip
import LateBinding.Proofs.Module.Consistency
import Mathlib.Control.Monad.Basic

set_option autoImplicit false

/-! # What is wrong with bytes that do not decode

A reader that fails names a cause, with positions and counts that it took from its cursor.
`FormatError.TrueOf` says of a cause what it says of the whole input, without any cursor. That the
numbers are right at every place where reading can fail is shown for the parts of the layout and
goes to their sequences and tables (`Truthful.bind`, `Truthful.many`): all that a part has to know
is that the cursor stands somewhere in the input (`Cursor.Within`), and what was read just before.

The same induction gives an account of the run. `Runs` tells by which cursors a reader comes, and in
it only `Reader.take` moves the cursor, so that no cursor is ever past the end (`Runs.within`).
`Codec.decode_diagnosis` says both of decoding.
-/

namespace LateBinding

open Codec (Bytes)

/-! ## Causes that are true of the input -/

/-- The cause, one that a reader of a module names, says something true of the input. -/
inductive FormatError.TrueOf (input : Bytes) : FormatError → Prop
  | badMagic {found rest : Bytes} (stands : input = found ++ rest) (four : found.length = 4)
      (wrong : found ≠ Codec.magic) : TrueOf input (.badMagic found)
  | unsupportedVersion {version : UInt16} {rest : Bytes}
      (stands : input = Codec.magic ++ Codec.u16Bytes version ++ rest)
      (wrong : version ≠ Codec.version) : TrueOf input (.unsupportedVersion version)
  | notUtf8 {front text rest : Bytes} (stands : input = front ++ text ++ rest)
      (invalid : Text.ofUtf8? text = none) :
      TrueOf input (.notUtf8 ((Text.utf8Fault? text).getD (.incomplete text.length)))
  | unknownTag {front rest : Bytes} {tag : UInt8} (stands : input = front ++ tag :: rest)
      (unknown : tag ≠ Codec.stringTag ∧ tag ≠ Codec.intTag) : TrueOf input (.unknownTag tag)
  | unknownOpcode {front rest : Bytes} {opcode : UInt8} (stands : input = front ++ opcode :: rest)
      (unknown : ∀ insn : Instruction, insn.opcode ≠ opcode) :
      TrueOf input (.unknownOpcode opcode front.length)
  | unexpectedEnd {position needed available : Nat} (total : position + available = input.length)
      (short : available < needed) : TrueOf input (.unexpectedEnd position needed available)
  | codeTooLong {front rest : Bytes} {count : UInt32}
      (stands : input = front ++ Codec.u32Bytes count ++ rest) (short : rest.length < count.toNat) :
      TrueOf input (.codeTooLong count.toNat rest.length)

namespace Codec

open Reader

variable {α β : Type} {input bytes : Bytes} {here before after : Cursor}

/-! ## Cursors in the input -/

/-- The cursor stands in the input: it has passed the bytes in front of those that are left. -/
def Cursor.Within (here : Cursor) (input : Bytes) : Prop :=
  ∃ taken, Cursor.Passes ⟨0, input⟩ taken here

namespace Cursor.Within

theorem start (input : Bytes) : Within ⟨0, input⟩ input := ⟨[], passes_nil.2 rfl⟩

theorem passes (h : before.Within input) (hpass : before.Passes bytes after) :
    after.Within input := by
  obtain ⟨taken, htaken⟩ := h
  exact ⟨taken ++ bytes, passes_append.2 ⟨before, htaken, hpass⟩⟩

theorem exists_front (h : here.Within input) :
    ∃ front, input = front ++ here.rest ∧ here.position = front.length := by
  obtain ⟨front, hrest, hposition⟩ := h
  exact ⟨front, hrest, hposition.trans (Nat.zero_add _)⟩

/-- What was passed stands in the input, at the position of the cursor. -/
theorem exists_stands (h : before.Within input) (hpass : before.Passes bytes after) :
    ∃ front, input = front ++ bytes ++ after.rest ∧ before.position = front.length := by
  obtain ⟨front, rfl, hposition⟩ := h.exists_front
  exact ⟨front, by rw [hpass.rest_eq, List.append_assoc], hposition⟩

/-- A byte that was read stands in the input, at the position of the cursor. -/
theorem exists_byte {byte : UInt8} (h : before.Within input)
    (hread : u8 before = .ok (byte, after)) :
    ∃ front, input = front ++ byte :: after.rest ∧ before.position = front.length := by
  obtain ⟨front, hstands, hposition⟩ := h.exists_stands (u8_eq_ok.1 hread)
  rw [List.append_assoc, List.singleton_append] at hstands
  exact ⟨front, hstands, hposition⟩

theorem total (h : here.Within input) : here.position + here.rest.length = input.length := by
  obtain ⟨front, rfl, hposition⟩ := h.exists_front
  rw [hposition, List.length_append]

end Cursor.Within

/-! ## Runs of readers -/

/-- Reading from the cursor `here` has this outcome, and comes by the cursors `stops`. A run is made
of the runs of the parts of a reader, and the only part that moves the cursor is `Reader.take`. -/
inductive Runs : {α : Type} → Reader α → (here : Cursor) → (stops : List Cursor) →
    (outcome : Except FormatError (α × Cursor)) → Prop
  | pure {α : Type} (value : α) (here : Cursor) :
      Runs (Pure.pure value : Reader α) here [here] (.ok (value, here))
  | fail {α : Type} (cause : FormatError) (here : Cursor) :
      Runs (Reader.fail cause : Reader α) here [here] (.error cause)
  | position (here : Cursor) : Runs Reader.position here [here] (.ok (here.position, here))
  | guarded {count : Nat} {here : Cursor} (h : guardCode count here = .ok ((), here)) :
      Runs (guardCode count) here [here] (.ok ((), here))
  | refused {count : Nat} {here : Cursor} {cause : FormatError}
      (h : guardCode count here = .error cause) :
      Runs (guardCode count) here [here] (.error cause)
  | taken {count : Nat} {here there : Cursor} {bytes : Bytes}
      (h : Reader.take count here = .ok (bytes, there)) :
      Runs (Reader.take count) here [here, there] (.ok (bytes, there))
  | short {count : Nat} {here : Cursor} {cause : FormatError}
      (h : Reader.take count here = .error cause) :
      Runs (Reader.take count) here [here] (.error cause)
  | next {α β : Type} {first : Reader α} {further : α → Reader β} {here middle : Cursor}
      {stops later : List Cursor} {value : α} {outcome : Except FormatError (β × Cursor)}
      (h : Runs first here stops (.ok (value, middle)))
      (h' : Runs (further value) middle later outcome) :
      Runs (first >>= further) here (stops ++ later) outcome
  | stopped {α β : Type} {first : Reader α} {further : α → Reader β} {here : Cursor}
      {stops : List Cursor} {cause : FormatError} (h : Runs first here stops (.error cause)) :
      Runs (first >>= further) here stops (.error cause)

/-- A run has the outcome of the reader. -/
theorem Runs.outcome_eq {reader : Reader α} {stops : List Cursor}
    {outcome : Except FormatError (α × Cursor)} (h : Runs reader here stops outcome) :
    outcome = reader here := by
  induction h with
  | pure _ _ | fail _ _ | position _ => rfl
  | guarded h | refused h | taken h | short h => exact h.symm
  | @next α β first further here middle stops later value outcome _ _ ih ih' =>
      rw [ih']
      show _ = Reader.bind first further here
      rw [Reader.bind, ← ih]
  | @stopped α β first further here stops cause _ ih =>
      show _ = Reader.bind first further here
      rw [Reader.bind, ← ih]

/-- **A run never leaves the input.** -/
theorem Runs.within {reader : Reader α} {stops : List Cursor}
    {outcome : Except FormatError (α × Cursor)} (h : Runs reader here stops outcome)
    (hhere : here.Within input) :
    (∀ stop ∈ stops, stop.Within input) ∧
      ∀ value after, outcome = .ok (value, after) → after.Within input := by
  induction h with
  | pure _ _ | position _ | guarded _ =>
      refine ⟨List.forall_mem_singleton.2 hhere, ?_⟩
      rintro value after ⟨⟩
      exact hhere
  | fail _ _ | refused _ | short _ => exact ⟨List.forall_mem_singleton.2 hhere, nofun⟩
  | taken h =>
      have hthere := hhere.passes (take_eq_ok.1 h).2
      refine ⟨List.forall_mem_cons.2 ⟨hhere, List.forall_mem_singleton.2 hthere⟩, ?_⟩
      rintro value after ⟨⟩
      exact hthere
  | next _ _ ih ih' =>
      obtain ⟨hstops, hmiddle⟩ := ih hhere
      obtain ⟨hlater, hafter⟩ := ih' (hmiddle _ _ rfl)
      exact ⟨List.forall_mem_append.2 ⟨hstops, hlater⟩, hafter⟩
  | stopped _ ih => exact ⟨(ih hhere).1, nofun⟩

/-! ## Truthful readers -/

/-- Reading from here has a run, and if it fails, then for a cause that is true of the input. -/
structure TruthfulAt (input : Bytes) (reader : Reader α) (here : Cursor) : Prop where
  runs : ∃ stops, Runs reader here stops (reader here)
  true_of_error : ∀ cause, reader here = .error cause → cause.TrueOf input

/-- The reader is truthful wherever the cursor stands in the input. -/
def Truthful (input : Bytes) (reader : Reader α) : Prop :=
  ∀ here : Cursor, here.Within input → TruthfulAt input reader here

namespace TruthfulAt

variable {reader : Reader α} {stops : List Cursor}

theorem of_ok {result : α × Cursor} (h : Runs reader here stops (.ok result)) :
    TruthfulAt input reader here := by
  have houtcome := h.outcome_eq
  refine ⟨⟨stops, houtcome ▸ h⟩, ?_⟩
  intro cause hcause
  rw [← houtcome] at hcause
  cases hcause

theorem of_error {cause : FormatError} (h : Runs reader here stops (.error cause))
    (htrue : cause.TrueOf input) : TruthfulAt input reader here := by
  have houtcome := h.outcome_eq
  refine ⟨⟨stops, houtcome ▸ h⟩, ?_⟩
  intro found hfound
  rw [← houtcome] at hfound
  cases hfound
  exact htrue

theorem pure (value : α) (here : Cursor) : TruthfulAt input (Pure.pure value : Reader α) here :=
  .of_ok (.pure value here)

theorem fail {cause : FormatError} (h : cause.TrueOf input) (here : Cursor) :
    TruthfulAt input (Reader.fail cause : Reader α) here := .of_error (.fail cause here) h

/-- A sequence is truthful where its first part is and what follows is at the cursor that the first
part leaves. -/
theorem bind {first : Reader α} {further : α → Reader β} (hhere : here.Within input)
    (hfirst : TruthfulAt input first here)
    (hfurther : ∀ value middle, first here = .ok (value, middle) → middle.Within input →
      TruthfulAt input (further value) middle) :
    TruthfulAt input (first >>= further) here := by
  obtain ⟨stops, hruns⟩ := hfirst.runs
  cases houtcome : first here with
  | error cause =>
      rw [houtcome] at hruns
      exact .of_error (.stopped hruns) (hfirst.true_of_error cause houtcome)
  | ok result =>
      obtain ⟨value, middle⟩ := result
      rw [houtcome] at hruns
      have hmiddle := (hruns.within hhere).2 value middle rfl
      obtain ⟨⟨later, hlater⟩, htrue⟩ := hfurther value middle houtcome hmiddle
      have hnext := Runs.next hruns hlater
      have hgoes := hnext.outcome_eq
      exact ⟨⟨stops ++ later, hgoes ▸ hnext⟩, hgoes ▸ htrue⟩

end TruthfulAt

namespace Truthful

theorem pure (value : α) : Truthful input (Pure.pure value : Reader α) :=
  fun here _ => .pure value here

theorem bind {first : Reader α} {further : α → Reader β} (hfirst : Truthful input first)
    (hfurther : ∀ value, Truthful input (further value)) : Truthful input (first >>= further) :=
  fun here hhere => (hfirst here hhere).bind hhere fun value middle _ => hfurther value middle

theorem map {f : α → β} {reader : Reader α} (h : Truthful input reader) :
    Truthful input (Reader.map f reader) :=
  h.bind fun value => .pure (f value)

/-- Bytes are missing where fewer are left than are due. -/
theorem take (count : Nat) : Truthful input (Reader.take count) := by
  intro here hhere
  cases houtcome : Reader.take count here with
  | ok result => exact .of_ok (.taken houtcome)
  | error cause =>
      refine .of_error (.short houtcome) ?_
      simp only [Reader.take] at houtcome
      split at houtcome
      · cases houtcome
      · next hshort =>
          cases houtcome
          refine .unexpectedEnd hhere.total ?_
          rw [List.length_take] at hshort
          omega

theorem word {count : Nat} {ofNat : Nat → α} :
    Truthful input (Reader.map ofNat (number count)) := (take count).map.map

theorem u8 : Truthful input Reader.u8 := word

theorem u16 : Truthful input Reader.u16 := word

theorem u32 : Truthful input Reader.u32 := word

theorem i64 : Truthful input Reader.i64 := word

theorem many {item : Reader α} (hitem : Truthful input item) (count : Nat) (done : Array α) :
    Truthful input (Reader.many item count done) := by
  induction count generalizing done with
  | zero => exact .pure done
  | succ count ih =>
      show Truthful input (item >>= fun value => Reader.many item count (done.push value))
      exact hitem.bind fun value => ih _

/-- A table of items with its count in front. -/
theorem table {item : Reader α} (hitem : Truthful input item) {next : Array α → Reader β}
    (hnext : ∀ all, Truthful input (next all)) :
    Truthful input (Reader.u16 >>= fun count => Reader.many item count.toNat #[] >>= next) :=
  u16.bind fun count => (hitem.many count.toNat #[]).bind hnext

end Truthful

/-! ## The parts of a module -/

theorem truthful_readString (length : Nat) : Truthful input (readString length) := by
  intro here hhere
  refine (Truthful.take length here hhere).bind hhere fun text after htext _ => ?_
  split
  · exact .pure _ after
  · next hinvalid =>
      obtain ⟨hlength, hpass⟩ := take_eq_ok.1 htext
      obtain ⟨front, hstands, -⟩ := hhere.exists_stands hpass
      rw [← hlength]
      exact .fail (.notUtf8 hstands hinvalid) after

theorem truthful_readConstant : Truthful input readConstant := by
  intro here hhere
  refine (Truthful.u8 here hhere).bind hhere fun tag after htag hafter => ?_
  split
  · have htext : Truthful input (Reader.u32 >>= fun length =>
        readString length.toNat >>= fun text => (Pure.pure (.str text) : Reader Constant)) :=
      Truthful.u32.bind fun _ => (truthful_readString _).bind fun _ => .pure _
    exact htext after hafter
  · next hstring =>
      split
      · exact Truthful.i64.bind (fun _ => .pure _) after hafter
      · next hint =>
          obtain ⟨front, hstands, -⟩ := hhere.exists_byte htag
          exact .fail (.unknownTag hstands ⟨hstring, hint⟩) after

theorem truthful_readMarkers : Truthful input readMarkers := by
  have hmarker : Truthful input readMarker :=
    Truthful.u16.bind fun _ => Truthful.u16.bind fun _ => .pure _
  exact Truthful.u8.bind fun count => (hmarker.many count.toNat #[]).bind fun _ => .pure _

theorem truthful_readField : Truthful input readField :=
  Truthful.u16.bind fun _ => truthful_readMarkers.bind fun _ => .pure _

/-- Operands are read truthfully if the position of the opcode is the right one. -/
theorem truthful_readOperands {opcode : UInt8} {position : Nat}
    (h : (∀ insn : Instruction, insn.opcode ≠ opcode) →
      (FormatError.unknownOpcode opcode position).TrueOf input) :
    Truthful input (readOperands opcode position) := by
  unfold readOperands
  split
  -- no operands
  case h_1 | h_2 | h_9 | h_10 | h_12 | h_13 | h_16 => exact .pure _
  -- a dynamic call
  case h_11 => exact Truthful.u16.bind fun _ => Truthful.u16.bind fun _ => .pure _
  -- no instruction
  case h_17 =>
    have hunknown (insn : Instruction) : insn.opcode ≠ opcode := by
      rintro rfl
      cases insn <;> contradiction
    exact fun here _ => .fail (h hunknown) here
  -- one operand
  case h_3 => exact Truthful.i64.map
  case h_5 | h_6 => exact Truthful.u8.map
  case h_4 | h_7 | h_8 => exact Truthful.u16.map
  case h_14 | h_15 => exact Truthful.u32.map

theorem truthful_readInstruction : Truthful input readInstruction := by
  intro here hhere
  have hposition : TruthfulAt input Reader.position here := .of_ok (.position here)
  refine hposition.bind hhere ?_
  rintro start middle ⟨⟩ -
  refine (Truthful.u8 here hhere).bind hhere fun opcode after hopcode hafter => ?_
  refine truthful_readOperands (fun hunknown => ?_) after hafter
  obtain ⟨front, hstands, hfront⟩ := hhere.exists_byte hopcode
  rw [hfront]
  exact .unknownOpcode hstands hunknown

/-- The guard compares the count that was read just before with the bytes that are left. -/
theorem truthful_readCode : Truthful input readCode := by
  intro here hhere
  refine (Truthful.u32 here hhere).bind hhere fun count after hcount hafter => ?_
  refine TruthfulAt.bind hafter ?_ fun _ middle _ hmiddle =>
    truthful_readInstruction.many count.toNat #[] middle hmiddle
  by_cases hle : count.toNat ≤ after.rest.length
  · exact .of_ok (.guarded (guardCode_eq_ok.2 ⟨hle, rfl⟩))
  · have hrefuses : guardCode count.toNat after =
        .error (.codeTooLong count.toNat after.rest.length) := by
      rw [guardCode, if_neg]
      rw [List.length_take]
      omega
    obtain ⟨front, hstands, -⟩ := hhere.exists_stands (u32_eq_ok.1 hcount)
    exact .of_error (.refused hrefuses) (.codeTooLong hstands (Nat.not_le.1 hle))

theorem truthful_readMethod : Truthful input readMethod :=
  Truthful.u16.bind fun _ => Truthful.u8.bind fun _ => Truthful.u8.bind fun _ =>
    truthful_readMarkers.bind fun _ => truthful_readCode.bind fun _ => .pure _

/-- The signature and the version open the input, so they are read from its front. -/
theorem truthfulAt_readModule (input : Bytes) : TruthfulAt input readModule ⟨0, input⟩ := by
  have hstart := Cursor.Within.start input
  have hmagic : TruthfulAt input readMagic ⟨0, input⟩ := by
    refine (Truthful.take 4 _ hstart).bind hstart fun found after hfound _ => ?_
    obtain ⟨hfour, hpass⟩ := take_eq_ok.1 hfound
    split
    · exact .pure _ after
    · next hwrong => exact .fail (.badMagic hpass.rest_eq hfour hwrong) after
  refine hmagic.bind hstart fun _ opened hopened hwithin => ?_
  have hpass := readMagic_eq_ok.1 hopened
  have hversion : TruthfulAt input readVersion opened := by
    refine (Truthful.u16 _ hwithin).bind hwithin fun found after hfound _ => ?_
    split
    · exact .pure _ after
    · next hwrong =>
        have hstands : input = magic ++ u16Bytes found ++ after.rest := by
          rw [List.append_assoc, ← (u16_eq_ok.1 hfound).rest_eq]
          exact hpass.rest_eq
        exact .fail (.unsupportedVersion hstands hwrong) after
  refine hversion.bind hwithin fun _ after _ hafter => ?_
  have htables : Truthful input (Reader.u16 >>= fun name => Reader.u16 >>= fun constants =>
      Reader.many readConstant constants.toNat #[] >>= fun constants => Reader.u16 >>= fun fields =>
      Reader.many readField fields.toNat #[] >>= fun fields => Reader.u16 >>= fun methods =>
      Reader.many readMethod methods.toNat #[] >>= fun methods =>
      (Pure.pure { name, pool := ⟨constants⟩, fields, methods } : Reader Module)) :=
    Truthful.u16.bind fun _ => truthful_readConstant.table fun _ => truthful_readField.table
      fun _ => truthful_readMethod.table fun _ => .pure _
  exact htables after hafter

/-! ## Decoding -/

theorem decode_eq_error_iff {cause : FormatError} :
    decode bytes = .error cause ↔
      parse bytes = .error cause ∨ ∃ m, parse bytes = .ok m ∧ m.validate = .error cause := by
  rw [decode, Except.bind_eq_error]
  refine or_congr_right (exists_congr fun m => and_congr_right fun _ => ?_)
  rw [Except.bind_eq_error]
  refine or_iff_left ?_
  rintro ⟨_, -, hdone⟩
  cases hdone

/-- What follows a module that is read can be left away. -/
theorem parse_take_of_readModule {m : Module} {stop : Cursor}
    (h : readModule ⟨0, bytes⟩ = .ok (m, stop)) :
    stop.rest.length ≤ bytes.length ∧
      parse (bytes.take (bytes.length - stop.rest.length)) = .ok m := by
  obtain ⟨hlimits, hpass⟩ := (reads_readModule m _ _).1 h
  have hbytes : bytes = m.bytes ++ stop.rest := hpass.rest_eq
  have hlength : bytes.length = m.bytes.length + stop.rest.length := by
    rw [hbytes, List.length_append]
  have hfront : bytes.take (bytes.length - stop.rest.length) = m.bytes := by
    rw [hlength, Nat.add_sub_cancel, hbytes, List.take_left]
  refine ⟨by omega, ?_⟩
  rw [hfront]
  exact parse_eq_ok_iff.2 (encode_eq_ok_iff.2 ⟨hlimits, rfl⟩)

/-- Decoding fails for a cause that is true of the input, or for bytes behind a module, or for a
cross reference of the module. -/
theorem cause_of_decode {cause : FormatError} (h : decode bytes = .error cause) :
    cause.TrueOf bytes ∨
      (∃ count m, cause = .trailing count ∧ 0 < count ∧ count ≤ bytes.length ∧
        parse (bytes.take (bytes.length - count)) = .ok m) ∨
      cause.IsDangling ∧ ∃ m, parse bytes = .ok m ∧ m.validate = .error cause := by
  rcases decode_eq_error_iff.1 h with hparse | ⟨m, hparse, hfault⟩
  · rcases Except.bind_eq_error.1 hparse with hfails | ⟨⟨m, stop⟩, hread, hleft⟩
    · exact .inl ((truthfulAt_readModule bytes).true_of_error cause hfails)
    · obtain ⟨hle, hfront⟩ := parse_take_of_readModule hread
      dsimp only at hleft
      split at hleft
      · cases hleft
      · next hrest =>
          cases hleft
          have hpositive := List.length_pos_iff.2 (mt List.isEmpty_iff.2 hrest)
          exact .inr (.inl ⟨_, m, rfl, hpositive, hle, hfront⟩)
  · exact .inr (.inr ⟨Module.isDangling_of_validate hfault, m, hparse, hfault⟩)

theorem littleEndian_u32Bytes (word : UInt32) : littleEndian (u32Bytes word) = word.toNat :=
  (littleEndian_toLittleEndian 4 _).trans (Nat.mod_eq_of_lt word.toNat_lt)

/-- **What a refusal says of the bytes is so.** Reading has a run, and no run of reading comes by a
cursor that is past the end: each stands at its position in the input, with the rest behind it.
Where decoding fails, the cause is true of the whole input, or bytes are left behind a module, or a
module is read and validation refuses it. The numbers of a report are right:
- where bytes are missing, the position and what is left make up the input, and more is due;
- an unknown opcode stands at its position, and no instruction has it;
- a count of instructions stands, as four bytes, in front of what is left, and is more than that;
- without the bytes that are left over a module is read, and then it is for validation only whether
  decoding answers with it. -/
theorem decode_diagnosis (bytes : Bytes) :
    (∃ stops, Runs readModule ⟨0, bytes⟩ stops (readModule ⟨0, bytes⟩)) ∧
    (∀ stops outcome, Runs readModule ⟨0, bytes⟩ stops outcome →
      outcome = readModule ⟨0, bytes⟩ ∧
      ∀ stop ∈ stops, stop.position ≤ bytes.length ∧ stop.rest = bytes.drop stop.position) ∧
    ∀ cause, decode bytes = .error cause →
      (cause.TrueOf bytes ∨ (∃ count, cause = .trailing count) ∨
        ∃ m, parse bytes = .ok m ∧ m.validate = .error cause) ∧
      (∀ position needed available, cause = .unexpectedEnd position needed available →
        cause.message =
          s!"unexpected end of module at byte {position} (needed {needed}, have {available})" ∧
        position + available = bytes.length ∧ available < needed) ∧
      (∀ opcode position, cause = .unknownOpcode opcode position →
        cause.message =
          "unknown opcode 0x" ++ Text.hexByte opcode ++ s!" at byte {position}" ∧
        bytes[position]? = some opcode ∧ ∀ insn : Instruction, insn.opcode ≠ opcode) ∧
      (∀ count available, cause = .codeTooLong count available →
        cause.message = s!"instruction count {count} exceeds remaining {available} bytes" ∧
        available < count ∧
        ∃ front word rest, bytes = front ++ word ++ rest ∧ word.length = 4 ∧
          rest.length = available ∧ littleEndian word = count) ∧
      ∀ count, cause = .trailing count →
        cause.message = s!"{count} trailing bytes after last method" ∧
        0 < count ∧ count ≤ bytes.length ∧
        ∃ m, parse (bytes.take (bytes.length - count)) = .ok m ∧
          decode (bytes.take (bytes.length - count)) = m.validate.map fun _ => m := by
  refine ⟨(truthfulAt_readModule bytes).runs, ?_, ?_⟩
  · intro stops outcome hruns
    refine ⟨hruns.outcome_eq, fun stop hstop => ?_⟩
    have hwithin := (hruns.within (.start bytes)).1 stop hstop
    obtain ⟨front, hbytes, hposition⟩ := hwithin.exists_front
    refine ⟨hwithin.total ▸ Nat.le_add_right .., ?_⟩
    rw [hposition, hbytes, List.drop_left]
  · intro cause hcause
    have hall := cause_of_decode hcause
    refine ⟨?_, ?_, ?_, ?_, ?_⟩
    · exact hall.imp_right (.imp (fun ⟨count, _, heq, _⟩ => ⟨count, heq⟩) And.right)
    · rintro position needed available rfl
      rcases hall with htrue | ⟨_, _, ⟨⟩, _⟩ | ⟨hdangling, _⟩
      · cases htrue with
        | unexpectedEnd total short => exact ⟨rfl, total, short⟩
      · cases hdangling
    · rintro opcode position rfl
      rcases hall with htrue | ⟨_, _, ⟨⟩, _⟩ | ⟨hdangling, _⟩
      · cases htrue with
        | unknownOpcode stands unknown => exact ⟨rfl, by simp [stands], unknown⟩
      · cases hdangling
    · rintro count available rfl
      rcases hall with htrue | ⟨_, _, ⟨⟩, _⟩ | ⟨hdangling, _⟩
      · cases htrue with
        | @codeTooLong front rest count stands short =>
            exact ⟨rfl, short, front, u32Bytes count, rest, stands, length_toLittleEndian 4 _, rfl,
              littleEndian_u32Bytes count⟩
      · cases hdangling
    · rintro count rfl
      rcases hall with htrue | ⟨_, m, ⟨⟩, hpositive, hle, hparse⟩ | ⟨hdangling, _⟩
      · cases htrue
      · exact ⟨rfl, hpositive, hle, m, hparse, decode_eq_of_parse hparse⟩
      · cases hdangling

/-- The sample cut in its last instruction, with another byte in place of it, cut in front of the
most of its code, and with a byte behind it. -/
theorem decode_diagnosis_sample :
    (decode (sample.bytes.take 77) = .error (.unexpectedEnd 77 1 0) ∧
      77 + 0 = (sample.bytes.take 77).length) ∧
    (decode (sample.bytes.take 77 ++ [0xFF]) = .error (.unknownOpcode 0xFF 77) ∧
      (sample.bytes.take 77 ++ [0xFF])[77]? = some 0xFF) ∧
    (decode (sample.bytes.take 60) = .error (.codeTooLong 5 2) ∧
      ∃ front word rest, sample.bytes.take 60 = front ++ word ++ rest ∧ rest.length = 2 ∧
        littleEndian word = 5) ∧
    decode (sample.bytes ++ [0]) = .error (.trailing 1) ∧
      ∃ m, parse ((sample.bytes ++ [0]).take 78) = .ok m := by
  have hcut : decode (sample.bytes.take 77) = .error (.unexpectedEnd 77 1 0) := by decide +kernel
  have hopcode : decode (sample.bytes.take 77 ++ [0xFF]) = .error (.unknownOpcode 0xFF 77) := by
    decide +kernel
  have hcode : decode (sample.bytes.take 60) = .error (.codeTooLong 5 2) := by decide +kernel
  have hmore : decode (sample.bytes ++ [0]) = .error (.trailing 1) := by decide +kernel
  refine ⟨⟨hcut, ?_⟩, ⟨hopcode, ?_⟩, ⟨hcode, ?_⟩, hmore, ?_⟩
  · exact (((decode_diagnosis _).2.2 _ hcut).2.1 _ _ _ rfl).2.1
  · exact (((decode_diagnosis _).2.2 _ hopcode).2.2.1 _ _ rfl).2.1
  · obtain ⟨-, -, front, word, rest, hbytes, -, hrest, hword⟩ :=
      ((decode_diagnosis _).2.2 _ hcode).2.2.2.1 _ _ rfl
    exact ⟨front, word, rest, hbytes, hrest, hword⟩
  · obtain ⟨-, -, -, m, hparse, -⟩ := ((decode_diagnosis _).2.2 _ hmore).2.2.2.2 _ rfl
    exact ⟨m, hparse⟩

end Codec

end LateBinding
