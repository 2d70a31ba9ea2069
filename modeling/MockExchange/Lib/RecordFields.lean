import MockExchange.Lib.PackedRecord

/-!
# Records in memory

The fields of a packed record that lies at some base address, read and assigned
by name. A character array is written up to its terminator only, so what lay
behind it stays; an assignment to a name that the record does not have leaves
the memory alone. When every field has been assigned, the record is the encoding
of the values exactly if it was zero wherever no text reached.
-/

namespace PackedRecord

open ByteMemory Memory

namespace FieldType

/-- The bytes that an assignment puts at the start of a field: a text that is
shorter than the field is followed by one zero. `none` is an exception. -/
def assigned : FieldType → Value → Option (List UInt8)
  | unsigned width, .number n => some (leBytes width (twosComplement width n))
  | signed width, .number n => some (leBytes width (twosComplement width n))
  | chars length, .text bytes =>
    let text := bytes.takeWhile (· ≠ 0)
    if text.length < length then some (text ++ [0])
    else if text.length = length then some text
    else none
  | _, _ => none

/-- The field after an assignment, if it was `old` before. -/
def overwritten (type : FieldType) (old : List UInt8) (v : Value) : Option (List UInt8) :=
  (type.assigned v).map fun bytes => bytes ++ old.drop bytes.length

/-- The field after at most one assignment. -/
def updated (type : FieldType) (old : List UInt8) : Option Value → Option (List UInt8)
  | none => some old
  | some v => type.overwritten old v

end FieldType

namespace Value

/-- A field has only zeros where the text and its terminator will not reach. -/
def Clean (old : List UInt8) : Value → Prop
  | number _ => True
  | text bytes => ∀ b ∈ old.drop (bytes.length + 1), b = 0

instance (old : List UInt8) : ∀ v : Value, Decidable (v.Clean old)
  | number _ => isTrue trivial
  | text _ => inferInstanceAs (Decidable (∀ b ∈ _, b = 0))

end Value

namespace Layout

/-- Where the field of that name starts, and its type. -/
def find? : Layout → String → Option (Nat × FieldType)
  | [], _ => none
  | field :: fields, name =>
    if field.name = name then some (0, field.type)
    else (find? fields name).map fun (offset, type) => (field.type.size + offset, type)

/-- An assignment to an attribute of the record at `base`. -/
def setattr (layout : Layout) (base : Nat) (m : Memory) (name : String) (v : Value) :
    Option Memory :=
  match layout.find? name with
  | none => some m
  | some (offset, type) => (type.assigned v).map (m.write (base + offset))

def getattr (layout : Layout) (base : Nat) (m : Memory) (name : String) : Option Value :=
  (layout.find? name).map fun (offset, type) => type.decode (m.bytes (base + offset) type.size)

/-- Assignments one after the other, up to the first exception. -/
def setattrs (layout : Layout) (base : Nat) : Memory → List (String × Value) → Option Memory
  | m, [] => some m
  | m, (name, v) :: assignments =>
    (layout.setattr base m name v).bind fun m => setattrs layout base m assignments

end Layout

/-! ### One field -/

namespace FieldType

section

variable {width : Nat} {n : Int} {type : FieldType} {v : Value} {bytes old : List UInt8}

theorem length_assigned (h : type.assigned v = some bytes) : bytes.length ≤ type.size := by
  cases type with
  | unsigned width =>
    cases v with
    | number n =>
      cases h
      exact (length_leBytes _ _).le
    | text text => cases h
  | signed width =>
    cases v with
    | number n =>
      cases h
      exact (length_leBytes _ _).le
    | text text => cases h
  | chars length =>
    cases v with
    | number n => cases h
    | text text =>
      simp only [assigned] at h
      split at h
      · rename_i hlt
        cases h
        rw [List.length_append]
        exact hlt
      · split at h
        · rename_i heq
          cases h
          exact heq.le
        · cases h

theorem length_overwritten (hold : old.length = type.size)
    (h : type.overwritten old v = some bytes) : bytes.length = type.size := by
  obtain ⟨put, hput, rfl⟩ := Option.map_eq_some_iff.mp h
  have hle := length_assigned hput
  rw [List.length_append, List.length_drop]
  omega

/-- An assignment of `v` writes `put`, and where that ends the encoding has only
zeros. -/
structure Puts (type : FieldType) (v : Value) (put : List UInt8) : Prop where
  assigned : type.assigned v = some put
  encode : type.encode v = put ++ List.replicate (type.size - put.length) 0
  clean : ∀ old, old.length = type.size →
    (v.Clean old ↔ ∀ b ∈ old.drop put.length, b = (0 : UInt8))
  decode : ∀ rest, (put ++ rest).length = type.size → type.decode (put ++ rest) = v

theorem Puts.number (hfits : (Value.number n).Fits type) (hsize : type.size = width)
    (hassigned : type.assigned (.number n) = some (leBytes width (twosComplement width n)))
    (hencode : type.encode (.number n) = leBytes width (twosComplement width n)) :
    Puts type (.number n) (leBytes width (twosComplement width n)) := by
  constructor
  · exact hassigned
  · rw [hencode, hsize, length_leBytes, Nat.sub_self, List.replicate_zero, List.append_nil]
  · intro old hold
    rw [length_leBytes, List.drop_eq_nil_of_le (by omega)]
    simp [Value.Clean]
  · intro rest hlength
    rw [List.length_append, length_leBytes, hsize] at hlength
    have hnil : rest = [] := List.eq_nil_of_length_eq_zero (by omega)
    rw [hnil, List.append_nil, ← hencode]
    exact decode_encode hfits trivial

theorem Puts.short {length : Nat} (hlt : bytes.length < length)
    (hfree : (Value.text bytes).NulFree) : Puts (.chars length) (.text bytes) (bytes ++ [0]) := by
  constructor
  · simp only [FieldType.assigned, takeWhile_eq_self_of_nulFree hfree, if_pos hlt]
  · have hone : length - bytes.length = length - (bytes.length + 1) + 1 := by omega
    rw [FieldType.encode, List.append_assoc, hone, List.replicate_succ]
    simp [size]
  · intro old _
    rw [List.length_append]
    rfl
  · intro rest _
    have hstop : ([0] ++ rest).takeWhile (fun b : UInt8 => decide (b ≠ 0)) = [] := by
      simp
    rw [FieldType.decode, List.append_assoc, List.takeWhile_append_of_pos, hstop, List.append_nil]
    intro b hb
    have hne : b ≠ 0 := fun hzero => hfree (hzero ▸ hb)
    simpa using hne

theorem Puts.full {length : Nat} (heq : bytes.length = length)
    (hfree : (Value.text bytes).NulFree) : Puts (.chars length) (.text bytes) bytes := by
  constructor
  · simp only [FieldType.assigned, takeWhile_eq_self_of_nulFree hfree, heq, lt_irrefl, if_false,
      if_true]
  · rfl
  · intro old hold
    have hsize : old.length = length := hold
    rw [Value.Clean, List.drop_eq_nil_of_le (by omega), List.drop_eq_nil_of_le (by omega)]
  · intro rest hlength
    have hsum : bytes.length + rest.length = length := by
      rw [← List.length_append]
      exact hlength
    have hnil : rest = [] := List.eq_nil_of_length_eq_zero (by omega)
    rw [hnil, List.append_nil, FieldType.decode, takeWhile_eq_self_of_nulFree hfree]

theorem exists_puts (h : v.Fits type) (hfree : v.NulFree) : ∃ put, Puts type v put := by
  cases type with
  | unsigned width =>
    cases v with
    | number n => exact ⟨_, .number h rfl rfl rfl⟩
    | text bytes => exact h.elim
  | signed width =>
    cases v with
    | number n => exact ⟨_, .number h rfl rfl rfl⟩
    | text bytes => exact h.elim
  | chars length =>
    cases v with
    | number n => exact h.elim
    | text bytes =>
      rcases Nat.lt_or_eq_of_le h with hlt | heq
      · exact ⟨_, .short hlt hfree⟩
      · exact ⟨_, .full heq hfree⟩

/-- An assignment leaves the encoding of the value exactly if the rest of the
field was zero. -/
theorem overwritten_eq_encode_iff (h : v.Fits type) (hfree : v.NulFree)
    (hold : old.length = type.size) :
    type.overwritten old v = some (type.encode v) ↔ v.Clean old := by
  obtain ⟨put, hput⟩ := exists_puts h hfree
  have hrest : (old.drop put.length).length = type.size - put.length := by
    rw [List.length_drop, hold]
  rw [overwritten, hput.assigned, hput.encode, hput.clean old hold, Option.map_some,
    Option.some_inj, List.append_right_inj, List.eq_replicate_iff]
  constructor
  · rintro ⟨-, hzero⟩
    exact hzero
  · intro hzero
    exact ⟨hrest, hzero⟩

/-- The value is read back whatever the field was before. -/
theorem decode_overwritten (h : v.Fits type) (hfree : v.NulFree) (hold : old.length = type.size)
    (hset : type.overwritten old v = some bytes) : type.decode bytes = v := by
  obtain ⟨put, hput⟩ := exists_puts h hfree
  have hlength := length_overwritten hold hset
  rw [overwritten, hput.assigned, Option.map_some, Option.some_inj] at hset
  rw [← hset] at hlength ⊢
  exact hput.decode _ hlength

theorem clean_zero (v : Value) (n : Nat) : v.Clean (List.replicate n 0) := by
  cases v with
  | number _ => trivial
  | text bytes =>
    intro b hb
    exact List.eq_of_mem_replicate (List.mem_of_mem_drop hb)

end

end FieldType

namespace Layout

section

variable {layout : Layout} {field : Field} {base offset offset' : Nat} {m m' : Memory}
  {name name' : String} {type type' : FieldType} {v : Value} {vs : List Value}
  {assignments : List (String × Value)}

/-! ### Fields by name -/

theorem mem_of_find? (h : layout.find? name = some (offset, type)) :
    ∃ field ∈ layout, field.name = name ∧ field.type = type := by
  induction layout generalizing offset type with
  | nil => cases h
  | cons field fields ih =>
    rw [find?] at h
    split at h
    · rename_i hname
      cases h
      exact ⟨field, List.mem_cons_self, hname, rfl⟩
    · obtain ⟨⟨o, t⟩, hfound, heq⟩ := Option.map_eq_some_iff.mp h
      cases heq
      obtain ⟨found, hmem, hboth⟩ := ih hfound
      exact ⟨found, List.mem_cons_of_mem _ hmem, hboth⟩

theorem find?_bound (h : layout.find? name = some (offset, type)) :
    offset + type.size ≤ layout.size := by
  induction layout generalizing offset type with
  | nil => cases h
  | cons field fields ih =>
    rw [find?] at h
    rw [size_cons]
    split at h
    · cases h
      omega
    · obtain ⟨⟨o, t⟩, hfound, heq⟩ := Option.map_eq_some_iff.mp h
      cases heq
      have hle := ih hfound
      omega

/-- Fields of different names do not overlap. -/
theorem find?_disjoint (h : layout.find? name = some (offset, type))
    (h' : layout.find? name' = some (offset', type')) (hne : name ≠ name') :
    offset + type.size ≤ offset' ∨ offset' + type'.size ≤ offset := by
  induction layout generalizing offset type offset' type' with
  | nil => cases h
  | cons field fields ih =>
    rw [find?] at h h'
    split at h
    · split at h'
      · rename_i hname hname'
        exact absurd (hname.symm.trans hname') hne
      · obtain ⟨⟨o', t'⟩, -, heq⟩ := Option.map_eq_some_iff.mp h'
        cases heq
        cases h
        omega
    · obtain ⟨⟨o, t⟩, hfound, heq⟩ := Option.map_eq_some_iff.mp h
      cases heq
      split at h'
      · cases h'
        omega
      · obtain ⟨⟨o', t'⟩, hfound', heq'⟩ := Option.map_eq_some_iff.mp h'
        cases heq'
        have hapart := ih hfound hfound'
        omega

/-- A record's bytes are the encoding of some values exactly if each field's
bytes are the encoding of its own. -/
theorem bytes_eq_encode_iff (hnodup : (layout.map Field.name).Nodup) (value : Field → Value)
    (hfit : ∀ field ∈ layout, (value field).Fits field.type) :
    m.bytes base layout.size = layout.encode (layout.map value) ↔
      ∀ name offset type, layout.find? name = some (offset, type) →
        m.bytes (base + offset) type.size = type.encode (value ⟨name, type⟩) := by
  induction layout generalizing base with
  | nil =>
    constructor
    · intro _ name offset type h
      cases h
    · intro _
      rfl
  | cons field fields ih =>
    obtain ⟨hnew, hrest⟩ := List.nodup_cons.mp hnodup
    have hhead := hfit field List.mem_cons_self
    have hlength : (m.bytes base field.type.size).length =
        (field.type.encode (value field)).length := by
      rw [length_bytes, FieldType.length_encode hhead]
    have htail : m.bytes (base + field.type.size) (size fields) =
        encode fields (fields.map value) ↔ _ :=
      ih hrest fun f hf => hfit f (List.mem_cons_of_mem _ hf)
    rw [size_cons, bytes_add, List.map_cons, encode]
    constructor
    · intro heq
      obtain ⟨hfirst, hothers⟩ := List.append_inj heq hlength
      intro name offset type h
      rw [find?] at h
      split at h
      · rename_i hname
        cases h
        rw [← hname]
        exact hfirst
      · obtain ⟨⟨o, t⟩, hfound, hpair⟩ := Option.map_eq_some_iff.mp h
        cases hpair
        rw [← Nat.add_assoc]
        exact htail.mp hothers _ _ _ hfound
    · intro hall
      have hfirst := hall field.name 0 field.type (if_pos rfl)
      have hothers := htail.mpr (fun name offset type h => by
        have hne : field.name ≠ name := by
          intro hname
          obtain ⟨found, hmem, hfound, -⟩ := mem_of_find? h
          exact hnew (List.mem_map.mpr ⟨found, hmem, hfound.trans hname.symm⟩)
        rw [Nat.add_assoc]
        refine hall name (field.type.size + offset) type ?_
        rw [find?, if_neg hne, h]
        rfl)
      rw [hothers]
      exact congrArg (· ++ _) hfirst

/-! ### Assignments -/

theorem setattr_found (h : layout.find? name = some (offset, type))
    (hset : layout.setattr base m name v = some m') :
    type.overwritten (m.bytes (base + offset) type.size) v =
      some (m'.bytes (base + offset) type.size) := by
  simp only [setattr, h] at hset
  obtain ⟨put, hput, rfl⟩ := Option.map_eq_some_iff.mp hset
  have hle := FieldType.length_assigned hput
  have hsplit : type.size = put.length + (type.size - put.length) := by omega
  have hrest : (m.write (base + offset) put).bytes (base + offset + put.length)
      (type.size - put.length) = m.bytes (base + offset + put.length) (type.size - put.length) :=
    bytes_congr ((write_sameOutside put).sameOn (Or.inr (Nat.le_refl _)))
  rw [FieldType.overwritten, hput, Option.map_some, Option.some_inj]
  rw [hsplit, bytes_add, bytes_add, bytes_write_same, hrest]
  exact congrArg (put ++ ·) (List.drop_left' length_bytes)

/-- An assignment to one name keeps the fields of other names. -/
theorem setattr_other (h : layout.find? name' = some (offset', type')) (hne : name ≠ name')
    (hset : layout.setattr base m name v = some m') :
    m'.bytes (base + offset') type'.size = m.bytes (base + offset') type'.size := by
  cases hname : layout.find? name with
  | none =>
    simp only [setattr, hname, Option.some_inj] at hset
    rw [hset]
  | some found =>
    obtain ⟨offset, type⟩ := found
    simp only [setattr, hname] at hset
    obtain ⟨put, hput, rfl⟩ := Option.map_eq_some_iff.mp hset
    have hle := FieldType.length_assigned hput
    have hapart := find?_disjoint hname h hne
    exact bytes_congr ((write_sameOutside put).sameOn (by omega))

theorem setattr_isSome (h : ∀ offset type, layout.find? name = some (offset, type) →
      (type.assigned v).isSome) : (layout.setattr base m name v).isSome := by
  cases hname : layout.find? name with
  | none => simp only [setattr, hname, Option.isSome_some]
  | some found =>
    obtain ⟨offset, type⟩ := found
    simp only [setattr, hname, Option.isSome_map]
    exact h offset type hname

/-- Every field after a row of assignments to different names. -/
theorem setattrs_field (hnodup : (assignments.map Prod.fst).Nodup)
    (hset : layout.setattrs base m assignments = some m')
    (h : layout.find? name = some (offset, type)) :
    type.updated (m.bytes (base + offset) type.size) (assignments.lookup name) =
      some (m'.bytes (base + offset) type.size) := by
  induction assignments generalizing m with
  | nil =>
    cases hset
    rfl
  | cons assignment assignments ih =>
    obtain ⟨first, v⟩ := assignment
    obtain ⟨hnew, hrest⟩ := List.nodup_cons.mp hnodup
    obtain ⟨mid, hfirst, hothers⟩ := Option.bind_eq_some_iff.mp hset
    have hih := ih hrest hothers
    by_cases hname : first = name
    · subst hname
      have hnone : assignments.lookup first = none := by
        rw [List.lookup_eq_none_iff]
        intro pair hpair
        have hne : first ≠ pair.1 := by
          intro heq
          exact hnew (List.mem_map.mpr ⟨pair, hpair, heq.symm⟩)
        simpa using hne
      rw [hnone] at hih
      rw [List.lookup_cons_self, ← hih]
      exact setattr_found h hfirst
    · have hskip : ((first, v) :: assignments).lookup name = assignments.lookup name := by
        rw [List.lookup_cons, beq_false_of_ne (Ne.symm hname)]
      rw [hskip, ← setattr_other h hname hfirst]
      exact hih

theorem setattrs_append (layout : Layout) (base : Nat) (m : Memory)
    (first rest : List (String × Value)) :
    layout.setattrs base m (first ++ rest) =
      (layout.setattrs base m first).bind fun m => layout.setattrs base m rest := by
  induction first generalizing m with
  | nil => rfl
  | cons assignment first ih =>
    rw [List.cons_append, Layout.setattrs, Layout.setattrs, Option.bind_assoc]
    simp only [ih]

/-- An assigned value is read back. -/
theorem getattr_setattrs (hnodup : (assignments.map Prod.fst).Nodup)
    (hset : layout.setattrs base m assignments = some m')
    (h : layout.find? name = some (offset, type)) (hlookup : assignments.lookup name = some v)
    (hfit : v.Fits type) (hfree : v.NulFree) : layout.getattr base m' name = some v := by
  have hfield := setattrs_field hnodup hset h
  rw [hlookup] at hfield
  rw [getattr, h, Option.map_some, Option.some_inj]
  exact FieldType.decode_overwritten hfit hfree length_bytes hfield

/-- Reading an attribute looks at the record's bytes only. -/
theorem getattr_congr (h : SameOn m m' base layout.size) :
    layout.getattr base m' name = layout.getattr base m name := by
  unfold getattr
  cases hfound : layout.find? name with
  | none => rfl
  | some found =>
    obtain ⟨offset, type⟩ := found
    have hbound := find?_bound hfound
    have hfield : SameOn m m' (base + offset) type.size := h.mono (by omega) (by omega)
    simp only [Option.map_some, bytes_congr hfield]

/-- Values of the fields' own types raise no exception. -/
theorem exists_setattrs (h : ∀ pair ∈ assignments, ∀ offset type,
      layout.find? pair.1 = some (offset, type) → (type.assigned pair.2).isSome) (m : Memory) :
    ∃ m', layout.setattrs base m assignments = some m' := by
  induction assignments generalizing m with
  | nil => exact ⟨m, rfl⟩
  | cons assignment assignments ih =>
    obtain ⟨name, v⟩ := assignment
    have hfirst : (layout.setattr base m name v).isSome :=
      setattr_isSome (h (name, v) List.mem_cons_self)
    obtain ⟨mid, hmid⟩ := Option.isSome_iff_exists.mp hfirst
    obtain ⟨m', hm'⟩ := ih (fun pair hpair => h pair (List.mem_cons_of_mem _ hpair)) mid
    refine ⟨m', ?_⟩
    rw [setattrs, hmid]
    exact hm'

/-- What the record's fields are once `assignments` are done; those it leaves
out are zero. -/
def written (assignments : List (String × Value)) (field : Field) : Value :=
  (assignments.lookup field.name).getD field.type.zero

/-- Assignments to a record of zeros leave the encoding of the values. -/
theorem bytes_setattrs_zeroed (hnames : (layout.map Field.name).Nodup)
    (hnodup : (assignments.map Prod.fst).Nodup)
    (hfit : layout.Fit (layout.map (written assignments)))
    (hfree : ∀ v ∈ layout.map (written assignments), v.NulFree)
    (hzero : ∀ i, base ≤ i → i < base + layout.size → m i = 0)
    (hset : layout.setattrs base m assignments = some m') :
    m'.bytes base layout.size = layout.encode (layout.map (written assignments)) := by
  have hfits := fit_map_iff.mp hfit
  refine (bytes_eq_encode_iff hnames _ hfits).mpr ?_
  intro name offset type hfound
  have hbound := find?_bound hfound
  have hold : m.bytes (base + offset) type.size = List.replicate type.size 0 :=
    bytes_eq_replicate fun i hlo hhi => hzero i (by omega) (by omega)
  obtain ⟨⟨n, t⟩, hmem, hn, ht⟩ := mem_of_find? hfound
  cases hn
  cases ht
  have hfield := setattrs_field hnodup hset hfound
  have hvalue := hfits _ hmem
  have hvalueFree := hfree _ (List.mem_map_of_mem hmem)
  rw [hold] at hfield
  unfold written at hvalue hvalueFree ⊢
  cases hlookup : assignments.lookup n with
  | none =>
    rw [hlookup] at hfield
    rw [Option.getD_none, FieldType.encode_zero]
    exact (Option.some.inj hfield).symm
  | some v =>
    rw [hlookup] at hfield hvalue hvalueFree
    rw [Option.getD_some] at hvalue hvalueFree ⊢
    have hencode := (FieldType.overwritten_eq_encode_iff hvalue hvalueFree
      List.length_replicate).mpr (FieldType.clean_zero v _)
    exact Option.some.inj (hfield.symm.trans hencode)

/-- Assignments to all fields leave the encoding of the values exactly if the
record was zero behind its texts. -/
theorem bytes_setattrs_iff (hnames : (layout.map Field.name).Nodup)
    (hnodup : (assignments.map Prod.fst).Nodup)
    (hall : ∀ field ∈ layout, (assignments.lookup field.name).isSome)
    (hfit : layout.Fit (layout.map (written assignments)))
    (hfree : ∀ v ∈ layout.map (written assignments), v.NulFree)
    (hset : layout.setattrs base m assignments = some m') :
    m'.bytes base layout.size = layout.encode (layout.map (written assignments)) ↔
      ∀ name offset type, layout.find? name = some (offset, type) →
        (written assignments ⟨name, type⟩).Clean (m.bytes (base + offset) type.size) := by
  have hfits := fit_map_iff.mp hfit
  refine (bytes_eq_encode_iff hnames _ hfits).trans ?_
  have hone : ∀ name offset type, layout.find? name = some (offset, type) →
      (m'.bytes (base + offset) type.size = type.encode (written assignments ⟨name, type⟩) ↔
        (written assignments ⟨name, type⟩).Clean (m.bytes (base + offset) type.size)) := by
    intro name offset type hfound
    obtain ⟨⟨n, t⟩, hmem, hn, ht⟩ := mem_of_find? hfound
    cases hn
    cases ht
    obtain ⟨v, hlookup⟩ := Option.isSome_iff_exists.mp (hall _ hmem)
    have hwritten : written assignments ⟨n, t⟩ = v := by
      rw [written, hlookup, Option.getD_some]
    have hfield := setattrs_field hnodup hset hfound
    rw [hlookup, FieldType.updated] at hfield
    have hclean := FieldType.overwritten_eq_encode_iff (hfits _ hmem)
      (hfree _ (List.mem_map_of_mem hmem))
      (length_bytes : (m.bytes (base + offset) t.size).length = t.size)
    rw [hwritten] at hclean ⊢
    rw [← hclean, hfield, Option.some_inj]
  constructor
  · intro h name offset type hfound
    exact (hone name offset type hfound).mp (h name offset type hfound)
  · intro h name offset type hfound
    exact (hone name offset type hfound).mpr (h name offset type hfound)

/-! ### A value for every field -/

theorem lookup_of_mem (hnodup : (assignments.map Prod.fst).Nodup) (h : (name, v) ∈ assignments) :
    assignments.lookup name = some v := by
  induction assignments with
  | nil => cases h
  | cons assignment assignments ih =>
    obtain ⟨first, w⟩ := assignment
    obtain ⟨hnew, hrest⟩ := List.nodup_cons.mp hnodup
    rcases List.mem_cons.mp h with heq | hmem
    · cases heq
      exact List.lookup_cons_self
    · have hne : name ≠ first := by
        intro heq
        exact hnew (List.mem_map.mpr ⟨(name, v), hmem, heq⟩)
      rw [List.lookup_cons, beq_false_of_ne hne]
      exact ih hrest hmem

/-- Each of the record's fields is assigned its own value, in some order. -/
structure Assigns (layout : Layout) (assignments : List (String × Value)) (vs : List Value) :
    Prop where
  names : (layout.map Field.name).Nodup
  fit : layout.Fit vs
  perm : assignments.Perm ((layout.map Field.name).zip vs)

namespace Assigns

theorem nodup (h : Assigns layout assignments vs) : (assignments.map Prod.fst).Nodup := by
  have hlength : (layout.map Field.name).length ≤ vs.length := by
    rw [List.length_map, h.fit.length_eq]
  have hfst := List.map_fst_zip hlength
  refine (h.perm.map Prod.fst).nodup_iff.mpr ?_
  rw [hfst]
  exact h.names

theorem lookup (h : Assigns layout assignments vs) {i : Nat} (hi : i < layout.length) :
    ∃ hi' : i < vs.length, assignments.lookup layout[i].name = some vs[i] := by
  have hi' : i < vs.length := h.fit.length_eq ▸ hi
  refine ⟨hi', lookup_of_mem h.nodup (h.perm.mem_iff.mpr ?_)⟩
  have hzip : i < ((layout.map Field.name).zip vs).length := by
    rw [List.length_zip, List.length_map]
    exact lt_min hi hi'
  have hget := List.getElem_mem hzip
  rwa [List.getElem_zip, List.getElem_map] at hget

theorem lookup_isSome (h : Assigns layout assignments vs) :
    ∀ field ∈ layout, (assignments.lookup field.name).isSome := by
  intro field hfield
  obtain ⟨i, hi, rfl⟩ := List.mem_iff_getElem.mp hfield
  obtain ⟨_, hlookup⟩ := h.lookup hi
  rw [hlookup]
  rfl

theorem map_written (h : Assigns layout assignments vs) :
    layout.map (written assignments) = vs := by
  apply List.ext_getElem
  · rw [List.length_map, h.fit.length_eq]
  · intro i hi hi'
    rw [List.length_map] at hi
    obtain ⟨_, hlookup⟩ := h.lookup hi
    rw [List.getElem_map, written, hlookup, Option.getD_some]

theorem exists_setattrs (h : Assigns layout assignments vs) (hfree : ∀ v ∈ vs, v.NulFree)
    (m : Memory) : ∃ m', layout.setattrs base m assignments = some m' := by
  refine Layout.exists_setattrs ?_ m
  rintro ⟨name, v⟩ hpair offset type hfound
  obtain ⟨field, hmem, hn, ht⟩ := mem_of_find? hfound
  have hwritten : written assignments field = v := by
    rw [written, hn, lookup_of_mem h.nodup hpair, Option.getD_some]
  have hvalues := h.map_written
  have hfit : v.Fits type := by
    have hall := fit_map_iff.mp (hvalues.symm ▸ h.fit) _ hmem
    rwa [hwritten, ht] at hall
  have hvalue : v ∈ vs := by
    rw [← hvalues, ← hwritten]
    exact List.mem_map_of_mem hmem
  obtain ⟨put, hput⟩ := FieldType.exists_puts hfit (hfree v hvalue)
  rw [hput.assigned]
  rfl

/-- The record is the encoding of the values exactly if it was zero wherever a
text and its terminator do not reach. -/
theorem bytes_eq_encode_iff (h : Assigns layout assignments vs) (hfree : ∀ v ∈ vs, v.NulFree)
    (hset : layout.setattrs base m assignments = some m') :
    m'.bytes base layout.size = layout.encode vs ↔
      ∀ name offset type, layout.find? name = some (offset, type) →
        ∀ v, assignments.lookup name = some v → v.Clean (m.bytes (base + offset) type.size) := by
  have hvalues := h.map_written
  have hiff := bytes_setattrs_iff h.names h.nodup h.lookup_isSome (hvalues.symm ▸ h.fit)
    (hvalues.symm ▸ hfree) hset
  rw [hvalues] at hiff
  refine hiff.trans ?_
  constructor
  · intro hall name offset type hfound v hlookup
    have hclean := hall name offset type hfound
    rwa [written, hlookup, Option.getD_some] at hclean
  · intro hall name offset type hfound
    obtain ⟨⟨n, t⟩, hmem, hn, ht⟩ := mem_of_find? hfound
    cases hn
    cases ht
    obtain ⟨v, hlookup⟩ := Option.isSome_iff_exists.mp (h.lookup_isSome _ hmem)
    rw [written, hlookup, Option.getD_some]
    exact hall n offset t hfound v hlookup

end Assigns

end

end Layout

end PackedRecord
