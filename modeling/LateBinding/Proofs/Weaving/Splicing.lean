import LateBinding.Proofs.Weaving.Bytes

set_option autoImplicit false

/-! # Woven bytes differ at the woven reads only

The bytes of a module are those of a list of pieces (`Module.pieces`): each instruction with its
place, and between them what stands around the code. Weaving maps the pieces one by one, and
changes only those that are reads of injected fields (`Piece.read?`). So the bytes before and the
bytes after weaving can be cut at the same reads into the same parts (`exists_splice`), with three
bytes of a read in the one and five bytes of a call in the other between them. This is
`Codec.splice_of_weave`, which also says that no read of an injected field is left.
-/

namespace LateBinding

open Codec

/-! ## The pieces of a module -/

/-- A part of the bytes of a module: an instruction with its place, or what stands around code. -/
inductive Piece where
  | plain (bytes : Bytes)
  | code (method pc : Nat) (insn : Instruction)

/-- The bytes of a piece. -/
def Piece.bytes : Piece → Bytes
  | plain bytes => bytes
  | code _ _ insn => insn.bytes

/-- The piece that stands in the woven module. -/
def Piece.weave (targets : CallTargets) : Piece → Piece
  | plain bytes => plain bytes
  | code method pc insn => code method pc (insn.weave targets)

/-- What is written of a method in front of its instructions. -/
def Method.preamble (method : Method) : Bytes :=
  u16Bytes method.name ++ [method.params, method.locals] ++ markersBytes method.markers ++
    toLittleEndian 4 method.code.size

/-- The pieces of the method at `index`. -/
def Method.pieces (method : Method) (index : Nat) : List Piece :=
  .plain method.preamble :: method.code.toList.zipIdx.map fun (insn, pc) => .code index pc insn

/-- What is written of a module in front of its methods. -/
def Module.preamble (m : Module) : Bytes :=
  magic ++ u16Bytes version ++ u16Bytes m.name ++
    (toLittleEndian 2 m.pool.size ++ m.pool.entries.toList.flatMap Constant.bytes) ++
    (toLittleEndian 2 m.fields.size ++ m.fields.toList.flatMap Field.bytes) ++
    toLittleEndian 2 m.methods.size

/-- The pieces of a module, in the order in which they are written. -/
def Module.pieces (m : Module) : List Piece :=
  .plain m.preamble :: m.methods.toList.zipIdx.flatMap fun (method, index) => method.pieces index

theorem Method.flatMap_pieces (method : Method) (index : Nat) :
    (method.pieces index).flatMap Piece.bytes = method.bytes := by
  have hcode : (method.code.toList.zipIdx.map fun (insn, pc) =>
      Piece.code index pc insn).flatMap Piece.bytes =
        method.code.toList.flatMap Instruction.bytes := by
    rw [List.flatMap_map]
    show (method.code.toList.zipIdx.flatMap fun x => Instruction.bytes x.1) = _
    rw [← List.flatMap_map Prod.fst, List.zipIdx_map_fst]
  rw [Method.pieces, List.flatMap_cons, hcode]
  simp only [Piece.bytes, Method.preamble, Method.bytes, codeBytes, List.append_assoc]

/-- The pieces of a module are its bytes. -/
theorem Module.flatMap_pieces (m : Module) : m.pieces.flatMap Piece.bytes = m.bytes := by
  have hmethods : (m.methods.toList.zipIdx.flatMap fun (method, index) =>
      method.pieces index).flatMap Piece.bytes = m.methods.toList.flatMap Method.bytes := by
    rw [List.flatMap_assoc]
    simp only [Method.flatMap_pieces]
    rw [← List.flatMap_map Prod.fst, List.zipIdx_map_fst]
  rw [Module.pieces, List.flatMap_cons, hmethods]
  simp only [Piece.bytes, Module.preamble, Module.bytes, List.append_assoc]

/-- A piece that is an instruction stands in the code, at its place. -/
theorem Module.mem_pieces {m : Module} {index pc : Nat} {insn : Instruction}
    (h : .code index pc insn ∈ m.pieces) :
    ∃ method, m.methods[index]? = some method ∧ method.code[pc]? = some insn := by
  rcases List.mem_cons.1 h with h | h
  · cases h
  · obtain ⟨⟨method, i⟩, hmethod, h⟩ := List.mem_flatMap.1 h
    rw [List.mk_mem_zipIdx_iff_getElem?, Array.getElem?_toList] at hmethod
    rcases List.mem_cons.1 h with h | h
    · cases h
    · obtain ⟨⟨found, j⟩, hinsn, h⟩ := List.mem_map.1 h
      rw [List.mk_mem_zipIdx_iff_getElem?, Array.getElem?_toList] at hinsn
      cases h
      exact ⟨method, hmethod, hinsn⟩

theorem Method.pieces_weave (method : Method) (targets : CallTargets) (index : Nat) :
    (method.weave targets).pieces index = (method.pieces index).map (Piece.weave targets) := by
  have hpreamble : (method.weave targets).preamble = method.preamble := by
    rw [Method.preamble, Method.preamble, Method.weave, Array.size_map]
  rw [Method.pieces, hpreamble, Method.weave, Array.toList_map, List.zipIdx_map, List.map_map,
    Method.pieces, List.map_cons, List.map_map]
  rfl

/-- Weaving maps the pieces one by one. -/
theorem Module.pieces_woven (m : Module) (kind : String) :
    (m.woven kind).pieces = m.pieces.map (Piece.weave (m.callTargets kind)) := by
  have hpreamble : (m.woven kind).preamble = m.preamble := by
    rw [Module.preamble, Module.preamble, Module.woven, Array.size_map]
  rw [Module.pieces, hpreamble, Module.woven, Array.toList_map, List.zipIdx_map,
    List.flatMap_map, Module.pieces, List.map_cons, List.map_flatMap]
  simp only [Prod.map, id, Method.pieces_weave]
  rfl

/-! ## Reads that are woven -/

/-- A read of an injected field: its place, the field, and the call that replaces it. -/
structure WovenRead where
  method : Nat
  pc : Nat
  field : UInt16
  target : CallTarget

namespace WovenRead

/-- The bytes of the read. -/
def readBytes (read : WovenRead) : Bytes := (Instruction.getField read.field).bytes

/-- The bytes of the call that replaces the read. -/
def callBytes (read : WovenRead) : Bytes :=
  (Instruction.invokeDynamic read.target.symbol read.target.slot).bytes

theorem length_readBytes (read : WovenRead) : read.readBytes.length = 3 := rfl

theorem length_callBytes (read : WovenRead) : read.callBytes.length = 5 := rfl

end WovenRead

/-- The read that a piece is, if the field is injected. -/
def Piece.read? (targets : CallTargets) : Piece → Option WovenRead
  | code method pc (.getField field) =>
    (targets.at? field).map fun target => { method, pc, field, target }
  | _ => none

theorem Piece.read?_eq_some {targets : CallTargets} {piece : Piece} {read : WovenRead} :
    piece.read? targets = some read ↔
      piece = .code read.method read.pc (.getField read.field) ∧
        targets.at? read.field = some read.target := by
  cases read with
  | mk method pc field target =>
      constructor
      · intro h
        unfold Piece.read? at h
        split at h
        · obtain ⟨found, hfound, h⟩ := Option.map_eq_some_iff.1 h
          cases h
          exact ⟨rfl, hfound⟩
        · cases h
      · rintro ⟨rfl, htarget⟩
        show (targets.at? field).map _ = _
        rw [htarget]
        rfl

/-- A piece that is woven is a read before and a call afterwards. -/
theorem Piece.bytes_of_read? {targets : CallTargets} {piece : Piece} {read : WovenRead}
    (h : piece.read? targets = some read) :
    piece.bytes = read.readBytes ∧ (piece.weave targets).bytes = read.callBytes := by
  obtain ⟨rfl, htarget⟩ := Piece.read?_eq_some.1 h
  refine ⟨rfl, ?_⟩
  show (Instruction.weave targets (.getField read.field)).bytes = _
  rw [Instruction.weave, htarget]
  rfl

/-- Every other piece stays as it is. -/
theorem Piece.weave_of_read? {targets : CallTargets} {piece : Piece}
    (h : piece.read? targets = none) : piece.weave targets = piece := by
  cases piece with
  | plain bytes => rfl
  | code method pc insn =>
      cases insn with
      | getField field =>
          have htarget : targets.at? field = none := Option.map_eq_none_iff.1 h
          show Piece.code method pc (Instruction.weave targets (.getField field)) = _
          rw [Instruction.weave, htarget]
      | _ => rfl

/-! ## Counting the reads -/

theorem Method.length_reads (method : Method) (targets : CallTargets) (index : Nat) :
    ((method.pieces index).filterMap (Piece.read? targets)).length =
      method.wovenSites targets := by
  have hinsn (pc : Nat) (insn : Instruction) :
      ((Piece.code index pc insn).read? targets).isSome = insn.isWoven targets := by
    cases insn with
    | getField field => simp only [Piece.read?, Option.isSome_map, Instruction.isWoven]
    | _ => rfl
  rw [Method.pieces, List.filterMap_cons, List.filterMap_map, Method.wovenSites,
    ← Array.countP_toList]
  show (method.code.toList.zipIdx.filterMap fun x =>
    (Piece.code index x.2 x.1).read? targets).length = _
  rw [List.length_filterMap_eq_countP]
  simp only [hinsn]
  show List.countP ((·.isWoven targets) ∘ Prod.fst) method.code.toList.zipIdx = _
  rw [← List.countP_map, List.zipIdx_map_fst]

/-- Weaving reports the number of reads that it replaces. -/
theorem Module.length_reads (m : Module) (kind : String) :
    (m.pieces.filterMap (Piece.read? (m.callTargets kind))).length =
      (m.wovenSummary kind).sites := by
  have hmethods (methods : List Method) (start : Nat) :
      (((methods.zipIdx start).flatMap fun (method, index) => method.pieces index).filterMap
          (Piece.read? (m.callTargets kind))).length =
        (methods.map (·.wovenSites (m.callTargets kind))).foldr (· + ·) 0 := by
    induction methods generalizing start with
    | nil => rfl
    | cons method methods ih =>
        rw [List.zipIdx_cons, List.flatMap_cons, List.filterMap_append, List.length_append, ih,
          Method.length_reads]
        rfl
  exact hmethods m.methods.toList 0

/-! ## Splicing -/

/-- **Two texts that differ in chosen pieces only are cut into the same parts at these pieces.**
Where `choose` selects a piece as `part`, the one text has `old part` and the other `new part`;
where it selects none, the two texts agree. -/
theorem exists_splice {α β : Type} {choose : α → Option β} {f g : α → Bytes}
    {old new : β → Bytes} (hnone : ∀ piece, choose piece = none → g piece = f piece)
    (hsome : ∀ piece part, choose piece = some part →
      f piece = old part ∧ g piece = new part) (pieces : List α) :
    ∃ first : Bytes, ∃ cuts : List (β × Bytes),
      cuts.map Prod.fst = pieces.filterMap choose ∧
      pieces.flatMap f = first ++ cuts.flatMap (fun cut => old cut.1 ++ cut.2) ∧
      pieces.flatMap g = first ++ cuts.flatMap (fun cut => new cut.1 ++ cut.2) ∧
      ∀ earlier cut later, cuts = earlier ++ cut :: later →
        ∃ before piece after, pieces = before ++ piece :: after ∧ choose piece = some cut.1 ∧
          before.flatMap f = first ++ earlier.flatMap fun cut => old cut.1 ++ cut.2 := by
  induction pieces with
  | nil => exact ⟨[], [], rfl, rfl, rfl, by simp⟩
  | cons piece pieces ih =>
      obtain ⟨first, cuts, hcuts, htext, htext', hplace⟩ := ih
      cases hchoose : choose piece with
      | none =>
          -- the piece belongs to what stands in front of the first cut
          refine ⟨f piece ++ first, cuts, ?_, ?_, ?_, ?_⟩
          · rw [List.filterMap_cons, hchoose, hcuts]
          · rw [List.flatMap_cons, htext, List.append_assoc]
          · rw [List.flatMap_cons, htext', hnone piece hchoose, List.append_assoc]
          · intro earlier cut later heq
            obtain ⟨before, found, after, rfl, hfound, hbefore⟩ := hplace earlier cut later heq
            refine ⟨piece :: before, found, after, rfl, hfound, ?_⟩
            rw [List.flatMap_cons, hbefore, List.append_assoc]
      | some part =>
          -- the piece is cut out, and what stood in front of the first cut follows it
          obtain ⟨hold, hnew⟩ := hsome piece part hchoose
          refine ⟨[], (part, first) :: cuts, ?_, ?_, ?_, ?_⟩
          · rw [List.filterMap_cons, hchoose, List.map_cons, hcuts]
          · rw [List.flatMap_cons, List.flatMap_cons, htext, hold, List.append_assoc,
              List.nil_append]
          · rw [List.flatMap_cons, List.flatMap_cons, htext', hnew, List.append_assoc,
              List.nil_append]
          · intro earlier cut later heq
            cases earlier with
            | nil =>
                cases heq
                exact ⟨[], piece, pieces, rfl, hchoose, rfl⟩
            | cons other earlier =>
                obtain ⟨rfl, hrest⟩ := List.cons.inj heq
                obtain ⟨before, found, after, rfl, hfound, hbefore⟩ :=
                  hplace earlier cut later hrest
                refine ⟨piece :: before, found, after, rfl, hfound, ?_⟩
                rw [List.flatMap_cons, hbefore, hold, List.flatMap_cons, List.nil_append,
                  List.append_assoc]

/-! ## Woven bytes -/

namespace Module

variable {m : Module} {kind : String}

/-- Behind the bytes `before`, an instruction of the module begins; it is the read, whose field
carries a marker of the kind, and the call names the symbol of the last such marker and the
field. -/
structure HasRead (m : Module) (kind : String) (read : WovenRead) (before : Bytes) : Prop where
  boundary : ∃ front back,
    m.pieces = front ++ .code read.method read.pc (.getField read.field) :: back ∧
      front.flatMap Piece.bytes = before
  placed : ∃ method, m.methods[read.method]? = some method ∧
    method.code[read.pc]? = some (.getField read.field)
  named : ∃ field symbol slot, m.fields[read.field.toNat]? = some field ∧
    (m.symbols kind field).getLast? = some symbol ∧ m.pool.string field.name = .ok slot ∧
    m.pool.string read.target.symbol = .ok symbol ∧ m.pool.string read.target.slot = .ok slot

/-- A piece that is selected is a read of a consistent module. -/
theorem Consistent.hasRead (h : m.Consistent) {front back : List Piece} {piece : Piece}
    {read : WovenRead} (hpieces : m.pieces = front ++ piece :: back)
    (hread : piece.read? (m.callTargets kind) = some read) :
    m.HasRead kind read (front.flatMap Piece.bytes) := by
  obtain ⟨rfl, htarget⟩ := Piece.read?_eq_some.1 hread
  rw [at?_callTargets] at htarget
  obtain ⟨field, symbol, hfield, hsymbol, hfirst, hslot⟩ := callTarget?_eq_some htarget
  have hname := (h.field field (Array.mem_of_getElem? hfield)).1
  refine ⟨⟨front, back, hpieces, rfl⟩, mem_pieces (by rw [hpieces]; simp), ?_⟩
  exact ⟨field, symbol, _, hfield, hsymbol, Pool.isString_iff.1 hname, hfirst, hslot⟩

end Module

/-- **Woven bytes differ at the woven reads only.** Weaving the bytes of a module succeeds. Both
texts are cut into the same parts, `first` and what follows each cut, as many cuts as weaving
reports; at a cut stands the read in the one text and its call in the other. The module that is
written does not read injected fields any more, and the bytes stay the same only where there is
nothing to weave. -/
theorem Codec.splice_of_weave {bytes : Bytes} {m : Module} (h : decode bytes = .ok m)
    (kind : String) :
    ∃ out summary woven first, ∃ cuts : List (WovenRead × Bytes),
      Codec.weave kind bytes = .ok (out, summary) ∧ cuts.length = summary.sites ∧
      m.pieces.flatMap Piece.bytes = bytes ∧
      bytes = first ++ cuts.flatMap (fun cut => cut.1.readBytes ++ cut.2) ∧
      out = first ++ cuts.flatMap (fun cut => cut.1.callBytes ++ cut.2) ∧
      (∀ earlier cut later, cuts = earlier ++ cut :: later →
        m.HasRead kind cut.1 (first ++ earlier.flatMap fun cut => cut.1.readBytes ++ cut.2)) ∧
      (∀ cut ∈ cuts, cut.1.readBytes.length = 3 ∧ cut.1.callBytes.length = 5) ∧
      decode out = .ok woven ∧
      (∀ method ∈ woven.methods, ∀ field, .getField field ∈ method.code →
        woven.symbol? kind field = none) ∧
      out.length = bytes.length + 2 * summary.sites ∧ (out = bytes ↔ summary.sites = 0) := by
  obtain ⟨hweave, hbytes, hout⟩ := weave_eq_of_decode h kind
  obtain ⟨hencode, hvalid⟩ := decode_eq_ok_iff.1 h
  obtain ⟨-, rfl⟩ := encode_eq_ok_iff.1 hencode
  have hconsistent := Module.validate_eq_ok_iff.1 hvalid
  have hscannable := (Module.weave_eq_ok.1 hweave).1
  obtain ⟨first, cuts, hcuts, hold, hnew, hplace⟩ :=
    exists_splice (f := Piece.bytes)
      (g := fun piece => (piece.weave (m.callTargets kind)).bytes)
      (fun _ hpiece => by rw [Piece.weave_of_read? hpiece])
      (fun _ _ => Piece.bytes_of_read?) m.pieces
  rw [Module.flatMap_pieces] at hold
  rw [← List.flatMap_map, ← Module.pieces_woven, Module.flatMap_pieces] at hnew
  have hcount : cuts.length = (m.wovenSummary kind).sites := by
    rw [← Module.length_reads, ← hcuts, List.length_map]
  -- each cut makes the text longer by two bytes
  have hlength : (m.woven kind).bytes.length =
      m.bytes.length + 2 * (m.wovenSummary kind).sites := by
    have hparts (cuts : List (WovenRead × Bytes)) :
        (cuts.flatMap fun cut => cut.1.callBytes ++ cut.2).length =
          (cuts.flatMap fun cut => cut.1.readBytes ++ cut.2).length + 2 * cuts.length := by
      induction cuts with
      | nil => rfl
      | cons cut cuts ih =>
          simp only [List.flatMap_cons, List.length_append, List.length_cons, ih,
            WovenRead.length_callBytes, WovenRead.length_readBytes]
          omega
    rw [hold, hnew, List.length_append, List.length_append, hparts, hcount, Nat.add_assoc]
  refine ⟨_, _, _, first, cuts, hbytes, hcount, m.flatMap_pieces, hold, hnew, ?_, ?_, hout, ?_,
    hlength, ?_⟩
  · intro earlier cut later heq
    obtain ⟨front, piece, back, hpieces, hread, hfront⟩ := hplace earlier cut later heq
    rw [← hfront]
    exact hconsistent.hasRead hpieces hread
  · exact fun cut _ => ⟨cut.1.length_readBytes, cut.1.length_callBytes⟩
  · intro method hmethod field hread
    exact Module.symbol?_of_read_woven hscannable hmethod hread
  · constructor
    · intro heq
      rw [heq] at hlength
      omega
    · intro hnone
      rw [hnone, List.length_eq_zero_iff] at hcount
      rw [hold, hnew, hcount]
      rfl

theorem Codec.splice_of_weave_sample :
    decode sample.bytes = .ok sample ∧ ∃ out summary first, ∃ cut : WovenRead × Bytes,
      Codec.weave "A" sample.bytes = .ok (out, summary) ∧ summary.sites = 1 ∧
      sample.bytes = first ++ (cut.1.readBytes ++ cut.2) ∧
      out = first ++ (cut.1.callBytes ++ cut.2) ∧ sample.HasRead "A" cut.1 first := by
  have hdecode : decode sample.bytes = .ok sample := decode_eq_ok_iff.2 ⟨rfl, rfl⟩
  have hsites : (Codec.weave "A" sample.bytes).map (·.2.sites) = .ok 1 := by decide +kernel
  obtain ⟨out, summary, -, first, cuts, hweave, hcount, -, hold, hnew, hplace, -⟩ :=
    Codec.splice_of_weave hdecode "A"
  rw [hweave] at hsites
  have hone : summary.sites = 1 := Except.ok.inj hsites
  obtain ⟨cut, rfl⟩ := List.length_eq_one_iff.1 (hcount.trans hone)
  rw [List.flatMap_singleton] at hold hnew
  refine ⟨hdecode, out, summary, first, cut, hweave, hone, hold, hnew, ?_⟩
  simpa using hplace [] cut [] rfl

end LateBinding
