import LateBinding.Proofs.Module.Assembling
import Mathlib.Data.List.Forall2

set_option autoImplicit false

/-! # What a builder hands out

A module is built by declarations, each of which may be refused. `Declaration.perform` makes one and
records what came of it, and `Declaration.Leads` is all that can come of it: a refused declaration
has interned strings at most, and one that is accepted adds its constant, its field or its method
and nothing else. `Builder.Accounts` is the invariant between a builder and its record, and
`Builder.build_of_declareAll` what it comes to for a finished module.
-/

namespace LateBinding

/-! ## Declarations -/

/-- A field to declare: its name, and its markers as kinds and values. -/
structure FieldSource where
  name : String
  markers : List (String × String) := []
  deriving DecidableEq

/-- A method to declare. -/
structure MethodSource where
  name : String
  params : UInt8 := 0
  locals : UInt8 := 0
  items : List CodeItem

/-- A step in building a module. -/
inductive Declaration where
  | constant (text : String)
  | field (source : FieldSource)
  | method (source : MethodSource)

/-- What came of a step, with the index that was answered. -/
inductive Declared where
  | constant (text : String) (index : UInt16)
  | field (source : FieldSource) (index : UInt16)
  | method (source : MethodSource)
  | refused (step : Declaration) (cause : FormatError)

/-- Make one step, and go on with the builder in any case. -/
def Declaration.perform : Declaration → Builder → Declared × Builder
  | .constant text, b =>
    match Builder.intern text b with
    | (.ok index, b) => (.constant text index, b)
    | (.error cause, b) => (.refused (.constant text) cause, b)
  | .field source, b =>
    match Builder.field source.name source.markers b with
    | (.ok index, b) => (.field source index, b)
    | (.error cause, b) => (.refused (.field source) cause, b)
  | .method source, b =>
    match Builder.method source.name source.params source.locals source.items b with
    | (.ok _, b) => (.method source, b)
    | (.error cause, b) => (.refused (.method source) cause, b)

/-- Make the steps one after the other, and record what came of them. -/
def Builder.declareAll : List Declaration → Builder → List Declared × Builder
  | [], b => ([], b)
  | step :: steps, b =>
    let (declared, b) := step.perform b
    let (record, b) := declareAll steps b
    (declared :: record, b)

/-- The constants that were declared, in order, with the indices that were answered. -/
def Declared.constants (record : List Declared) : List (String × UInt16) :=
  record.filterMap fun
    | .constant text index => some (text, index)
    | .field _ _ | .method _ | .refused _ _ => none

/-- The fields that were declared, in order, with the indices that were answered. -/
def Declared.fields (record : List Declared) : List (FieldSource × UInt16) :=
  record.filterMap fun
    | .field source index => some (source, index)
    | .constant _ _ | .method _ | .refused _ _ => none

/-- The methods that were declared, in order. -/
def Declared.methods (record : List Declared) : List MethodSource :=
  record.filterMap fun
    | .method source => some source
    | .constant _ _ | .field _ _ | .refused _ _ => none

/-! ## Reading declarations through the pool -/

namespace Pool

variable {pool pool' : Pool}

/-- The marker is made of these two strings. -/
def ReadsMarker (pool : Pool) (marker : Marker) (texts : String × String) : Prop :=
  pool.string marker.kind = .ok texts.1 ∧ pool.string marker.value = .ok texts.2

/-- The field is the one that was to be declared. -/
structure ReadsField (pool : Pool) (field : Field) (source : FieldSource) : Prop where
  name : pool.string field.name = .ok source.name
  markers : List.Forall₂ pool.ReadsMarker field.markers source.markers

/-- The method is the one that was to be declared. -/
structure ReadsMethod (pool : Pool) (method : Method) (source : MethodSource) : Prop where
  name : pool.string method.name = .ok source.name
  params : method.params = source.params
  locals : method.locals = source.locals
  markers : method.markers = []
  code : pool.Assembles source.items method.code

theorem ReadsMarker.mono {marker : Marker} {texts : String × String}
    (h : pool.ReadsMarker marker texts) (hgrows : pool.GrowsTo pool') :
    pool'.ReadsMarker marker texts :=
  ⟨hgrows.string h.1, hgrows.string h.2⟩

theorem ReadsField.mono {field : Field} {source : FieldSource} (h : pool.ReadsField field source)
    (hgrows : pool.GrowsTo pool') : pool'.ReadsField field source :=
  ⟨hgrows.string h.name, h.markers.imp fun _ _ hmarker => hmarker.mono hgrows⟩

theorem ReadsMethod.mono {method : Method} {source : MethodSource}
    (h : pool.ReadsMethod method source) (hgrows : pool.GrowsTo pool') :
    pool'.ReadsMethod method source :=
  ⟨hgrows.string h.name, h.params, h.locals, h.markers, h.code.mono hgrows⟩

end Pool

/-! ## Operations that intern -/

namespace Builder

variable {α β : Type} {b : Builder} {first : Building α} {further : α → Building β}
  {right : Pool → α → Prop} {right' : Pool → β → Prop}

/-- The operation does nothing to the builder but intern strings, and where it succeeds, its value
is right by the pool that it leaves. -/
def Interns (b : Builder) (op : Building α) (right : Pool → α → Prop) : Prop :=
  ∃ pool, b.pool.GrowsTo pool ∧
    ((∃ cause, op b = (.error cause, { b with pool })) ∨
      ∃ value, op b = (.ok value, { b with pool }) ∧ right pool value)

/-- What follows an operation that interns fails with it, or goes on with the pool it leaves. -/
theorem Interns.next (h : b.Interns first right) (further : α → Building β) :
    ∃ pool, b.pool.GrowsTo pool ∧
      ((∃ cause, (first >>= further) b = (.error cause, { b with pool })) ∨
        ∃ value, (first >>= further) b = further value { b with pool } ∧ right pool value) := by
  obtain ⟨pool, hgrows, ⟨cause, hfirst⟩ | ⟨value, hfirst, hright⟩⟩ := h
  · refine ⟨pool, hgrows, .inl ⟨cause, ?_⟩⟩
    show andThen first further b = _
    rw [andThen, hfirst]
  · refine ⟨pool, hgrows, .inr ⟨value, ?_, hright⟩⟩
    show andThen first further b = _
    rw [andThen, hfirst]

theorem Interns.bind (h : b.Interns first right)
    (hnext : ∀ pool value, b.pool.GrowsTo pool → right pool value →
      Interns { b with pool } (further value) right') : b.Interns (first >>= further) right' := by
  obtain ⟨pool, hgrows, ⟨cause, hbind⟩ | ⟨value, hbind, hright⟩⟩ := h.next further
  · exact ⟨pool, hgrows, .inl ⟨cause, hbind⟩⟩
  · obtain ⟨pool', hgrows', hresult⟩ := hnext pool value hgrows hright
    refine ⟨pool', hgrows.trans hgrows', ?_⟩
    rw [hbind]
    exact hresult

theorem interns_pure {value : α} (h : right b.pool value) : b.Interns (pure value) right :=
  ⟨b.pool, .refl b.pool, .inr ⟨value, rfl, h⟩⟩

theorem interns_intern (b : Builder) (text : String) :
    b.Interns (intern text) fun pool index => pool.string index = .ok text := by
  rcases Pool.intern_spec b.pool text with ⟨index, pool, hintern, hgrows, hholds⟩ | hfull
  · refine ⟨pool, hgrows, .inr ⟨index, ?_, hholds⟩⟩
    rw [intern, hintern]
  · refine ⟨b.pool, .refl b.pool, .inl ⟨.pool .full, ?_⟩⟩
    rw [intern, hfull]

theorem interns_internMarkers (b : Builder) (markers : List (String × String)) :
    b.Interns (internMarkers markers) fun pool found =>
      List.Forall₂ pool.ReadsMarker found markers := by
  induction markers generalizing b with
  | nil => exact interns_pure .nil
  | cons texts markers ih =>
      obtain ⟨kind, value⟩ := texts
      refine (b.interns_intern kind).bind ?_
      intro pool kindIndex _ hkind
      refine (interns_intern _ value).bind ?_
      intro pool₁ valueIndex hgrows hvalue
      refine (ih _).bind ?_
      intro pool₂ found hgrows' hfound
      have hmarker : pool₂.ReadsMarker ⟨kindIndex, valueIndex⟩ (kind, value) :=
        ⟨(hgrows.trans hgrows').string hkind, hgrows'.string hvalue⟩
      exact interns_pure (.cons hmarker hfound)

/-- A body that is assembled has the code of its items. -/
theorem interns_assemble (b : Builder) (items : List CodeItem) :
    b.Interns (assemble items) fun pool a => pool.Assembles items a.code := by
  have hempty : Assembly.Holds { pool := b.pool } b.pool [] := by
    refine ⟨.refl b.pool, fun _ => ⟨rfl, ?_⟩⟩
    intro earlier item later hitems
    cases earlier <;> cases hitems
  have hholds := Assembly.holds_foldl hempty items
  rw [List.nil_append] at hholds
  refine ⟨_, hholds.grows, ?_⟩
  unfold assemble
  dsimp only
  cases hfault : (items.foldl Assembly.add { pool := b.pool }).fault with
  | none => exact .inr ⟨_, rfl, hholds.code hfault⟩
  | some fault => exact .inl ⟨_, rfl⟩

end Builder

/-! ## What a step comes to -/

/-- What comes of a step that leaves the builder with this pool. -/
inductive Declaration.Leads (b : Builder) (pool : Pool) :
    Declaration → Declared → Builder → Prop
  | refused (step : Declaration) (cause : FormatError) :
      Leads b pool step (.refused step cause) { b with pool }
  | constant {text : String} {index : UInt16} (holds : pool.string index = .ok text) :
      Leads b pool (.constant text) (.constant text index) { b with pool }
  | field {source : FieldSource} {field : Field} {index : UInt16}
      (reads : pool.ReadsField field source) (room : b.fields.size < UInt16.size)
      (position : index.toNat = b.fields.size) :
      Leads b pool (.field source) (.field source index)
        { b with pool, fields := b.fields.push field }
  | method {source : MethodSource} {method : Method} (reads : pool.ReadsMethod method source) :
      Leads b pool (.method source) (.method source)
        { b with pool, methods := b.methods.push method }

namespace Declaration

theorem leads_constant (b : Builder) (text : String) :
    ∃ pool, b.pool.GrowsTo pool ∧
      Leads b pool (.constant text) ((constant text).perform b).1
        ((constant text).perform b).2 := by
  obtain ⟨pool, hgrows, ⟨cause, h⟩ | ⟨index, h, hholds⟩⟩ := b.interns_intern text
  · refine ⟨pool, hgrows, ?_⟩
    rw [perform, h]
    exact .refused _ cause
  · refine ⟨pool, hgrows, ?_⟩
    rw [perform, h]
    exact .constant hholds

/-- A field is refused where the pool is full before its name and its markers stand in it, or where
there is no index left for it. -/
theorem leads_field (b : Builder) (source : FieldSource) :
    ∃ pool, b.pool.GrowsTo pool ∧
      Leads b pool (.field source) ((field source).perform b).1 ((field source).perform b).2 := by
  obtain ⟨pool, hgrows, ⟨cause, h⟩ | ⟨name, h, hname⟩⟩ := (b.interns_intern source.name).next
    fun name => do
      let markers ← Builder.internMarkers source.markers
      Builder.pushField { name, markers }
  · refine ⟨pool, hgrows, ?_⟩
    rw [perform, Builder.field, h]
    exact .refused _ cause
  · obtain ⟨pool', hgrows', ⟨cause, h'⟩ | ⟨markers, h', hmarkers⟩⟩ :=
      (Builder.interns_internMarkers { b with pool } source.markers).next
        fun markers => Builder.pushField { name, markers }
    · refine ⟨pool', hgrows.trans hgrows', ?_⟩
      rw [perform, Builder.field, h, h']
      exact .refused _ cause
    · refine ⟨pool', hgrows.trans hgrows', ?_⟩
      rw [perform, Builder.field, h, h']
      simp only [Builder.pushField]
      by_cases hroom : b.fields.size < UInt16.size
      · rw [if_pos hroom]
        exact .field ⟨hgrows'.string hname, hmarkers⟩ hroom (UInt16.toNat_ofNat_of_lt' hroom)
      · rw [if_neg hroom]
        exact .refused _ .fieldsFull

/-- A method is refused where the pool is full before its name and the strings of its body stand in
it. -/
theorem leads_method (b : Builder) (source : MethodSource) :
    ∃ pool, b.pool.GrowsTo pool ∧
      Leads b pool (.method source) ((method source).perform b).1
        ((method source).perform b).2 := by
  obtain ⟨pool, hgrows, ⟨cause, h⟩ | ⟨name, h, hname⟩⟩ := (b.interns_intern source.name).next
    fun name => do
      let body ← Builder.assemble source.items
      Builder.pushMethod
        { name, params := source.params, locals := source.locals, code := body.code }
      return body.marks
  · refine ⟨pool, hgrows, ?_⟩
    rw [perform, Builder.method, h]
    exact .refused _ cause
  · obtain ⟨pool', hgrows', ⟨cause, h'⟩ | ⟨body, h', hcode⟩⟩ :=
      (Builder.interns_assemble { b with pool } source.items).next fun body => do
        Builder.pushMethod
          { name, params := source.params, locals := source.locals, code := body.code }
        return body.marks
    · refine ⟨pool', hgrows.trans hgrows', ?_⟩
      rw [perform, Builder.method, h, h']
      exact .refused _ cause
    · refine ⟨pool', hgrows.trans hgrows', ?_⟩
      rw [perform, Builder.method, h, h']
      exact .method ⟨hgrows'.string hname, rfl, rfl, rfl, hcode⟩

/-- Whatever the step, strings are appended to the pool, and what it declares is added. -/
theorem perform_leads (step : Declaration) (b : Builder) :
    ∃ pool, b.pool.GrowsTo pool ∧ Leads b pool step (step.perform b).1 (step.perform b).2 := by
  cases step with
  | constant text => exact leads_constant b text
  | field source => exact leads_field b source
  | method source => exact leads_method b source

end Declaration

/-! ## The record of a builder -/

namespace Builder

variable {b b' : Builder} {name : String} {record : List Declared} {declared : Declared}
  {pool : Pool}

/-- The builder has what was declared according to the record, and nothing else. -/
structure Accounts (b : Builder) (name : String) (record : List Declared) : Prop where
  name : b.name = name
  distinct : b.pool.Distinct
  poolFits : b.pool.size ≤ Pool.capacity
  fieldsFit : b.fields.size ≤ UInt16.size
  /-- The constants stand at the indices that were answered. -/
  constants : ∀ constant ∈ Declared.constants record,
    b.pool.string constant.2 = .ok constant.1
  fields : List.Forall₂ b.pool.ReadsField b.fields.toList ((Declared.fields record).map Prod.fst)
  /-- The index that was answered for a field is its position. -/
  positions : (Declared.fields record).map (fun declared => declared.2.toNat) =
    List.range b.fields.size
  methods : List.Forall₂ b.pool.ReadsMethod b.methods.toList (Declared.methods record)

theorem accounts_nil (name : String) : Accounts { name } name [] where
  name := rfl
  distinct := ⟨[], .nil, rfl⟩
  poolFits := Nat.zero_le _
  fieldsFit := Nat.zero_le _
  constants := List.forall_mem_nil _
  fields := .nil
  positions := rfl
  methods := .nil

/-- A pool that grows keeps to the record. -/
theorem Accounts.grow (h : b.Accounts name record) (hgrows : b.pool.GrowsTo pool) :
    Accounts { b with pool } name record where
  name := h.name
  distinct := hgrows.distinct h.distinct
  poolFits := hgrows.fits h.poolFits
  fieldsFit := h.fieldsFit
  constants constant hmem := hgrows.string (h.constants constant hmem)
  fields := h.fields.imp fun _ _ hfield => hfield.mono hgrows
  positions := h.positions
  methods := h.methods.imp fun _ _ hmethod => hmethod.mono hgrows

/-- A step adds what it declares to the tables that it touches, and to the end of the record. -/
theorem Accounts.snoc (h : b.Accounts name record) (hname : b'.name = b.name)
    (hpool : b'.pool = b.pool) (hfits : b'.fields.size ≤ UInt16.size)
    (hconstants : ∀ constant ∈ Declared.constants [declared],
      b.pool.string constant.2 = .ok constant.1)
    {fields : List Field} (hfields : b'.fields.toList = b.fields.toList ++ fields)
    (hreads : List.Forall₂ b.pool.ReadsField fields ((Declared.fields [declared]).map Prod.fst))
    (hpositions : (Declared.fields [declared]).map (fun declared => declared.2.toNat) =
      List.range' b.fields.size fields.length)
    {methods : List Method} (hmethods : b'.methods.toList = b.methods.toList ++ methods)
    (hbodies : List.Forall₂ b.pool.ReadsMethod methods (Declared.methods [declared])) :
    b'.Accounts name (record ++ [declared]) where
  name := hname.trans h.name
  distinct := hpool ▸ h.distinct
  poolFits := hpool ▸ h.poolFits
  fieldsFit := hfits
  constants := by
    rw [Declared.constants, List.filterMap_append, hpool]
    exact List.forall_mem_append.2 ⟨h.constants, hconstants⟩
  fields := by
    rw [Declared.fields, List.filterMap_append, List.map_append, hpool, hfields]
    exact List.rel_append h.fields hreads
  positions := by
    have hsize : b'.fields.size = b.fields.size + fields.length := by
      calc
        b'.fields.size = b'.fields.toList.length := Array.length_toList.symm
        _ = (b.fields.toList ++ fields).length := by rw [hfields]
        _ = b.fields.size + fields.length := by rw [List.length_append, Array.length_toList]
    rw [Declared.fields, List.filterMap_append, List.map_append, hsize, List.range_eq_range',
      ← List.range'_append_1, Nat.zero_add, ← List.range_eq_range']
    exact congrArg₂ _ h.positions hpositions
  methods := by
    rw [Declared.methods, List.filterMap_append, hpool, hmethods]
    exact List.rel_append h.methods hbodies

/-- **A step keeps to the record**, whether it is refused or not. -/
theorem Accounts.perform (h : b.Accounts name record) (step : Declaration) :
    (step.perform b).2.Accounts name (record ++ [(step.perform b).1]) := by
  obtain ⟨pool, hgrows, hleads⟩ := step.perform_leads b
  have hgrown := h.grow hgrows
  generalize (step.perform b).1 = declared at hleads ⊢
  generalize (step.perform b).2 = b' at hleads ⊢
  cases hleads with
  | refused step cause =>
      exact hgrown.snoc rfl rfl h.fieldsFit nofun (List.append_nil _).symm .nil rfl
        (List.append_nil _).symm .nil
  | constant holds =>
      exact hgrown.snoc rfl rfl h.fieldsFit (List.forall_mem_singleton.2 holds)
        (List.append_nil _).symm .nil rfl (List.append_nil _).symm .nil
  | @field source field index reads room position =>
      have hfits : (b.fields.push field).size ≤ UInt16.size := by
        rw [Array.size_push]
        exact room
      exact hgrown.snoc rfl rfl hfits nofun Array.toList_push (.cons reads .nil)
        (congrArg (fun position => [position]) position) (List.append_nil _).symm .nil
  | method reads =>
      exact hgrown.snoc rfl rfl h.fieldsFit nofun (List.append_nil _).symm .nil rfl
        Array.toList_push (.cons reads .nil)

/-- Steps keep to the record. -/
theorem Accounts.declareAll (h : b.Accounts name record) (steps : List Declaration) :
    (declareAll steps b).2.Accounts name (record ++ (declareAll steps b).1) := by
  induction steps generalizing b record with
  | nil =>
      rw [Builder.declareAll, List.append_nil]
      exact h
  | cons step steps ih =>
      have hrest := ih (h.perform step)
      rwa [List.append_assoc, List.singleton_append] at hrest

theorem declareAll_append (earlier later : List Declaration) (b : Builder) :
    declareAll (earlier ++ later) b =
      ((declareAll earlier b).1 ++ (declareAll later (declareAll earlier b).2).1,
        (declareAll later (declareAll earlier b).2).2) := by
  induction earlier generalizing b with
  | nil => rfl
  | cons step earlier ih =>
      simp only [List.cons_append, declareAll, ih]

/-- The later builder has what the earlier one has, at the same indices. -/
structure GrowsTo (b b' : Builder) : Prop where
  pool : b.pool.GrowsTo b'.pool
  fields : ∃ more, b'.fields = b.fields ++ more
  methods : ∃ more, b'.methods = b.methods ++ more

theorem GrowsTo.trans {b₁ : Builder} (h : b.GrowsTo b₁) (h' : b₁.GrowsTo b') : b.GrowsTo b' := by
  obtain ⟨fields, hfields⟩ := h.fields
  obtain ⟨fields', hfields'⟩ := h'.fields
  obtain ⟨methods, hmethods⟩ := h.methods
  obtain ⟨methods', hmethods'⟩ := h'.methods
  refine ⟨h.pool.trans h'.pool, ⟨fields ++ fields', ?_⟩, ⟨methods ++ methods', ?_⟩⟩
  · rw [hfields', hfields, Array.append_assoc]
  · rw [hmethods', hmethods, Array.append_assoc]

theorem growsTo_of_pool (hgrows : b.pool.GrowsTo pool) : b.GrowsTo { b with pool } :=
  ⟨hgrows, ⟨#[], Array.append_empty.symm⟩, ⟨#[], Array.append_empty.symm⟩⟩

theorem growsTo_perform (step : Declaration) (b : Builder) : b.GrowsTo (step.perform b).2 := by
  obtain ⟨pool, hgrows, hleads⟩ := step.perform_leads b
  have hsame := growsTo_of_pool hgrows
  generalize (step.perform b).1 = declared at hleads
  generalize (step.perform b).2 = b' at hleads ⊢
  cases hleads with
  | refused step cause => exact hsame
  | constant holds => exact hsame
  | @field source field index reads room position =>
      exact ⟨hgrows, ⟨#[field], Array.push_eq_append⟩, hsame.methods⟩
  | @method source method reads =>
      exact ⟨hgrows, hsame.fields, ⟨#[method], Array.push_eq_append⟩⟩

theorem growsTo_declareAll (steps : List Declaration) (b : Builder) :
    b.GrowsTo (declareAll steps b).2 := by
  induction steps generalizing b with
  | nil => exact growsTo_of_pool (.refl b.pool)
  | cons step steps ih => exact (growsTo_perform step b).trans (ih _)

/-- A module is handed out with the name interned, and only if it is consistent. -/
theorem build_eq_ok {m : Module} :
    b.build = .ok m ↔ ∃ index pool, b.pool.intern b.name = .ok (index, pool) ∧
      m = ⟨index, pool, b.fields, b.methods⟩ ∧ m.validate = .ok () := by
  simp only [build, Except.bind_eq_ok, Except.exists_unit, orFormat_eq_ok, Except.pure_eq_ok]
  constructor
  · rintro ⟨⟨index, pool⟩, hintern, hvalid, rfl⟩
    exact ⟨index, pool, hintern, rfl, hvalid⟩
  · rintro ⟨index, pool, hintern, rfl, hvalid⟩
    exact ⟨(index, pool), hintern, hvalid, rfl⟩

/-- **A module says what was declared.** Take any steps from an empty builder, whichever of them are
refused, and the record of what came of them. A module that is handed out then is consistent and
called by the name that was given, and the constants of its pool are different strings. Its fields
are those that were declared, in their order, with the names and markers read through the pool; the
index that was answered for each is its position. Its methods are those that were declared, and
their code has one instruction for each item that emits: the instruction itself with the targets
that later items have given to a branch at its place, or a push of an index that holds the string.
A step that was refused has appended strings to the pool at most, and what stood at an index after
any number of steps stands there in the module. -/
theorem build_of_declareAll {steps : List Declaration} {m : Module}
    (hsteps : declareAll steps { name } = (record, b)) (hbuild : b.build = .ok m) :
    m.validate = .ok () ∧ m.title = .ok name ∧ m.pool.Distinct ∧
    (∀ constant ∈ Declared.constants record, m.pool.string constant.2 = .ok constant.1) ∧
    List.Forall₂ m.pool.ReadsField m.fields.toList ((Declared.fields record).map Prod.fst) ∧
    (Declared.fields record).map (fun declared => declared.2.toNat) = List.range m.fields.size ∧
    List.Forall₂ m.pool.ReadsMethod m.methods.toList (Declared.methods record) ∧
    ∀ earlier step later before, steps = earlier ++ step :: later →
      (declareAll earlier { name }).2 = before →
      (∀ cause after, step.perform before = (.refused step cause, after) →
        ∃ texts, after = { before with pool := before.pool.append texts }) ∧
      (∀ index text, before.pool.string index = .ok text → m.pool.string index = .ok text) ∧
      (∃ more, m.fields = before.fields ++ more) ∧
      ∃ more, m.methods = before.methods ++ more := by
  have haccounts := (accounts_nil name).declareAll steps
  rw [hsteps, List.nil_append] at haccounts
  obtain ⟨index, pool, hintern, rfl, hvalid⟩ := build_eq_ok.1 hbuild
  obtain ⟨hgrows, hholds⟩ := Pool.growsTo_of_intern hintern
  have hgrown := haccounts.grow hgrows
  have htitle : pool.string index = .ok name := haccounts.name ▸ hholds
  refine ⟨hvalid, htitle, hgrown.distinct, hgrown.constants, hgrown.fields, hgrown.positions,
    hgrown.methods, ?_⟩
  rintro earlier step later before rfl hbefore
  refine ⟨?_, ?_⟩
  · intro cause after hperform
    obtain ⟨interned, hinterned, hleads⟩ := step.perform_leads before
    rw [hperform] at hleads
    cases hleads
    obtain ⟨texts, rfl⟩ := hinterned.appended
    exact ⟨texts, rfl⟩
  · have hsince := growsTo_declareAll (step :: later) before
    have hrest : (declareAll (step :: later) before).2 = b := by
      rw [declareAll_append, hbefore] at hsteps
      exact congrArg Prod.snd hsteps
    rw [hrest] at hsince
    exact ⟨fun _ _ hstring => (hsince.pool.trans hgrows).string hstring, hsince.fields,
      hsince.methods⟩

/-- A field that is to be injected, and a method with a string that is declared before and with a
branch that gets its target when it stands. -/
def greeter : List Declaration :=
  [.constant "hello", .field ⟨"greeting", [("inject", "hello")]⟩,
    .method ⟨"greet", 0, 0, [.emit (.jump 0), .emit .nop, .retarget 0 2, .pushString "hello",
      .emit .ret, .retarget 1 7]⟩]

/-- The module that comes of it. -/
def greeterModule : Module where
  name := 4
  pool := ⟨#[.str "hello", .str "greeting", .str "inject", .str "greet", .str "Greeter"]⟩
  fields := #[⟨1, [⟨2, 0⟩]⟩]
  methods := #[⟨3, 0, 0, [], #[.jump 2, .nop, .pushConst 0, .ret]⟩]

theorem build_of_declareAll_greeter :
    ∃ record b, declareAll greeter { name := "Greeter" } = (record, b) ∧
      b.build = .ok greeterModule ∧
      Declared.fields record = [(⟨"greeting", [("inject", "hello")]⟩, 0)] ∧
      greeterModule.title = .ok "Greeter" ∧ greeterModule.pool.Distinct ∧
      List.Forall₂ greeterModule.pool.ReadsField greeterModule.fields.toList
        ((Declared.fields record).map Prod.fst) ∧
      List.Forall₂ greeterModule.pool.ReadsMethod greeterModule.methods.toList
        (Declared.methods record) := by
  have hsteps : declareAll greeter { name := "Greeter" } = (_, _) := rfl
  have hbuild : (declareAll greeter { name := "Greeter" }).2.build = .ok greeterModule := by
    decide +kernel
  have hrecord : Declared.fields (declareAll greeter { name := "Greeter" }).1 =
      [(⟨"greeting", [("inject", "hello")]⟩, 0)] := by
    decide +kernel
  obtain ⟨-, htitle, hdistinct, -, hfields, -, hmethods, -⟩ := build_of_declareAll hsteps hbuild
  exact ⟨_, _, hsteps, hbuild, hrecord, htitle, hdistinct, hfields, hmethods⟩

end Builder

end LateBinding
