import LowLatencyKv.Builder.RoundTrip

/-! # Import of a CSV file

The command that builds a snapshot from the rows of a CSV file. Strings are cut or
padded to the fixed sizes, so distinct strings may become one key, and the builder
does not look for repeated keys.
-/

namespace LowLatencyKv

open Rust Tables

/-- `as_bytes` of a string slice. -/
def asBytes (s : String) : List UInt8 := s.toUTF8.data.toList

/-- A zeroed array, filled with the bytes of a string as far as they fit. -/
def stringToFixed (n : ℕ) (s : String) : Arr UInt8 n where
  toList :=
    let bytes := asBytes s
    let len := min bytes.length n
    splice (List.replicate n 0) 0 (sub bytes 0 len)
  length_toList := by
    have hl : (sub (asBytes s) 0 (min (asBytes s).length n)).length = min (asBytes s).length n :=
      length_sub (Nat.zero_le _) (Nat.min_le_left _ _)
    rw [length_splice (by rw [hl, List.length_replicate]; omega), List.length_replicate]

def stringToKey (s : String) : Key := stringToFixed keySize s

def stringToValue (s : String) : Value := stringToFixed valueSize s

variable {Fn : Type} (ph : Ph Fn) (sha256 : Sha256) (env : BuildEnv) (keyColumn valueColumn : ℕ)

/-- A record as the `csv` crate yields it. -/
abbrev CsvRow := Except String (List String)

/-- The strings of the key and the value column. -/
def columns (result : CsvRow) : Outcome AnyError (String × String) := do
  let record ← (Outcome.ofExcept result).mapErr fun e =>
    .context "Failed to parse CSV record" (.message e)
  let keyStr ← Build.contextNone record[keyColumn]? "Key column not found"
  let valueStr ← Build.contextNone record[valueColumn]? "Value column not found"
  pure (keyStr, valueStr)

def addRow (builder : SnapshotBuilder) (result : CsvRow) : Outcome AnyError SnapshotBuilder := do
  let (keyStr, valueStr) ← columns keyColumn valueColumn result
  pure (builder.addRecord (stringToKey keyStr) (stringToValue valueStr))

def readRows (rows : List CsvRow) : Outcome AnyError SnapshotBuilder :=
  rows.foldlM (addRow keyColumn valueColumn) SnapshotBuilder.new

/-- Builds a snapshot from the rows of a CSV file. -/
def buildFromCsv (input : Except IoError (List CsvRow)) : Build Unit := do
  let rows ← (Outcome.ofExcept input).mapErr fun e =>
    AnyError.context "Failed to open input file" (.io e)
  let builder ← readRows keyColumn valueColumn rows
  builder.build ph sha256 env

/-- The row could be parsed and has these strings in the two columns. -/
def CsvRow.Has (result : CsvRow) (r : String × String) : Prop :=
  ∃ record, result = .ok record ∧ record[keyColumn]? = some r.1 ∧ record[valueColumn]? = some r.2

def fixedRecord (r : String × String) : Key × Value := (stringToKey r.1, stringToValue r.2)

/-- The records of the rows that have both columns. -/
def csvRecords (rows : List CsvRow) : List (Key × Value) :=
  rows.filterMap fun row =>
    match columns keyColumn valueColumn row with
    | .ok r => some (fixedRecord r)
    | _ => none

variable {ph sha256 env keyColumn valueColumn} {t : UInt64} {rows : List CsvRow} {row : CsvRow}
  {r : String × String}

theorem columns_eq_ok_iff :
    columns keyColumn valueColumn row = .ok r ↔ row.Has keyColumn valueColumn r := by
  rcases row with e | record
  · exact ⟨nofun, fun ⟨_, h, _⟩ => nomatch h⟩
  · obtain ⟨k, v⟩ := r
    rw [columns]
    cases hk : record[keyColumn]? with
    | none => simp [CsvRow.Has, Build.contextNone, hk]
    | some keyStr =>
      cases hv : record[valueColumn]? with
      | none => simp [CsvRow.Has, Build.contextNone, hk, hv]
      | some valueStr => simp [CsvRow.Has, Build.contextNone, hk, hv]

theorem columns_ne_panic (row : CsvRow) : columns keyColumn valueColumn row ≠ .panic := by
  rcases row with e | record
  · exact nofun
  · rw [columns]
    cases hk : record[keyColumn]? with
    | none => simp [Build.contextNone, hk]
    | some keyStr =>
      cases hv : record[valueColumn]? with
      | none => simp [Build.contextNone, hk, hv]
      | some valueStr => simp [Build.contextNone, hk, hv]

theorem readRows_err (hrow : row ∈ rows) (h : ∀ r, ¬ row.Has keyColumn valueColumn r) :
    ∃ e, readRows keyColumn valueColumn rows = .err e := by
  refine Outcome.foldlM_err hrow (fun b => ?_) (fun row b hp => ?_) _
  · cases hc : columns keyColumn valueColumn row with
    | ok r => exact absurd (columns_eq_ok_iff.mp hc) (h r)
    | err e => exact ⟨e, by rw [addRow, hc]; rfl⟩
    | panic => exact absurd hc (columns_ne_panic row)
  · rw [addRow, Outcome.bind_eq_panic_iff] at hp
    rcases hp with hp | ⟨r, _, hp⟩
    · exact columns_ne_panic row hp
    · cases hp

theorem csvRecords_cons (hr : row.Has keyColumn valueColumn r) :
    csvRecords keyColumn valueColumn (row :: rows) =
      fixedRecord r :: csvRecords keyColumn valueColumn rows :=
  List.filterMap_cons_some (by rw [columns_eq_ok_iff.mpr hr])

theorem length_csvRecords (h : ∀ row ∈ rows, ∃ r, row.Has keyColumn valueColumn r) :
    (csvRecords keyColumn valueColumn rows).length = rows.length := by
  induction rows with
  | nil => rfl
  | cons row rows ih =>
    obtain ⟨r, hr⟩ := h row List.mem_cons_self
    rw [csvRecords_cons hr, List.length_cons, List.length_cons,
      ih fun row hrow => h row (List.mem_cons_of_mem _ hrow)]

theorem readRows_ok (h : ∀ row ∈ rows, ∃ r, row.Has keyColumn valueColumn r) :
    readRows keyColumn valueColumn rows =
      .ok (.ofRecords (csvRecords keyColumn valueColumn rows)) := by
  unfold readRows
  rw [SnapshotBuilder.ofRecords]
  generalize SnapshotBuilder.new = b
  induction rows generalizing b with
  | nil => rfl
  | cons row rows ih =>
    obtain ⟨r, hr⟩ := h row List.mem_cons_self
    have hc := columns_eq_ok_iff.mpr hr
    rw [List.foldlM_cons, addRow, hc, Outcome.ok_bind, csvRecords_cons hr, List.foldl_cons]
    exact ih (fun row hrow => h row (List.mem_cons_of_mem _ hrow)) _

theorem mem_csvRecords_iff {x : Key × Value} : x ∈ csvRecords keyColumn valueColumn rows ↔
    ∃ row ∈ rows, ∃ r, row.Has keyColumn valueColumn r ∧ fixedRecord r = x := by
  unfold csvRecords
  rw [List.mem_filterMap]
  refine exists_congr fun row => and_congr_right fun _ => ?_
  constructor
  · intro h
    split at h
    · next r hc => exact ⟨r, columns_eq_ok_iff.mp hc, Option.some.inj h⟩
    · cases h
  · rintro ⟨r, hr, rfl⟩
    rw [columns_eq_ok_iff.mpr hr]

theorem buildFromCsv_of_readRows {b : SnapshotBuilder}
    (h : readRows keyColumn valueColumn rows = .ok b) (s : Output) :
    buildFromCsv ph sha256 env keyColumn valueColumn (.ok rows) s = b.build ph sha256 env s := by
  unfold buildFromCsv
  rw [Outcome.ofExcept_ok, Outcome.mapErr_ok, Eff.liftM_ok_bind, h,
    Eff.liftM_ok_bind]

/-- The store answers the fixed key of every row with the fixed value of that row. -/
def KvStore.AnswersRows (ph : Ph Fn) (st : KvStore Fn) (keyColumn valueColumn : ℕ)
    (rows : List CsvRow) : Prop :=
  ∀ row ∈ rows, ∀ s t, row.Has keyColumn valueColumn (s, t) →
    st.get ph (stringToKey s) = .ok (some (stringToValue t))

theorem KvStore.answersRows_iff {st : KvStore Fn} : st.AnswersRows ph keyColumn valueColumn rows ↔
    ∀ k v, (k, v) ∈ csvRecords keyColumn valueColumn rows → st.get ph k = .ok (some v) := by
  constructor
  · intro h k v hm
    obtain ⟨row, hrow, r, hr, he⟩ := mem_csvRecords_iff.mp hm
    cases he
    exact h row hrow r.1 r.2 hr
  · intro h row hrow s t hr
    exact h _ _ (mem_csvRecords_iff.mpr ⟨row, hrow, (s, t), hr, rfl⟩)

/-- Rows with the same fixed key have the same fixed value. -/
def RowsAgree (keyColumn valueColumn : ℕ) (rows : List CsvRow) : Prop :=
  ∀ row ∈ rows, ∀ row' ∈ rows, ∀ r r', row.Has keyColumn valueColumn r →
    row'.Has keyColumn valueColumn r' → stringToKey r.1 = stringToKey r'.1 →
      stringToValue r.2 = stringToValue r'.2

theorem rowsAgree_iff : RowsAgree keyColumn valueColumn rows ↔
    ∀ k v v', (k, v) ∈ csvRecords keyColumn valueColumn rows →
      (k, v') ∈ csvRecords keyColumn valueColumn rows → v = v' := by
  constructor
  · intro h k v v' hm hm'
    obtain ⟨row, hrow, r, hr, he⟩ := mem_csvRecords_iff.mp hm
    obtain ⟨row', hrow', r', hr', he'⟩ := mem_csvRecords_iff.mp hm'
    have hv := h row hrow row' hrow' r r' hr hr'
      ((congrArg Prod.fst he).trans (congrArg Prod.fst he').symm)
    exact (congrArg Prod.snd he).symm.trans (hv.trans (congrArg Prod.snd he'))
  · intro h row hrow row' hrow' r r' hr hr' hk
    refine h (stringToKey r.1) _ _ (mem_csvRecords_iff.mpr ⟨row, hrow, r, hr, rfl⟩) ?_
    rw [hk]
    exact mem_csvRecords_iff.mpr ⟨row', hrow', r', hr', rfl⟩

theorem IsSnapshot.get_of_agree {rs : List (Key × Value)} {fn fn' : Fn} {image : List UInt8}
    {g : File} (h : IsSnapshot ph sha256 t rs fn image g)
    (hg : ∀ k, ph.get fn' k = ph.get fn k)
    (hagree : ∀ k v v', (k, v) ∈ rs → (k, v') ∈ rs → v = v') {k : Key} {v : Value}
    (hm : (k, v) ∈ rs) : (KvStore.ofFile g fn').get ph k = .ok (some v) := by
  have hp := h.indexes.builds.placement_records
  have hkey : k ∈ rs.map Prod.fst := List.mem_map.mpr ⟨_, hm, rfl⟩
  obtain ⟨i, _, hi⟩ := hp.slot_lt k hkey
  obtain ⟨v', hv', hc⟩ := getElem?_place hp List.length_replicate.ge hkey hi
  obtain rfl := hagree k v v' hm hv'
  rw [KvStore.get_eq (h.inBounds fn'), KvStore.table, h.slot_eq hg, h.cells_eq]
  exact congrArg _ (SlotTable.get_eq_some_iff.mpr ⟨i, hi, hc⟩)

theorem rowsAgree_of_nodup (hd : ((csvRecords keyColumn valueColumn rows).map Prod.fst).Nodup) :
    RowsAgree keyColumn valueColumn rows :=
  rowsAgree_iff.mpr fun _ _ _ hv hv' =>
    congrArg Prod.snd (List.inj_on_of_nodup_map hd hv hv' rfl)

/-- The import is refused, or it leaves a snapshot that answers every row with its own value. -/
def KeepsRowsApart (ph : Ph Fn) (sha256 : Sha256) (env : BuildEnv) (keyColumn valueColumn : ℕ)
    (rows : List CsvRow) (s : Output) : Prop :=
  (∃ e s', buildFromCsv ph sha256 env keyColumn valueColumn (.ok rows) s = (.err e, s')) ∨
    ∃ g log st, buildFromCsv ph sha256 env keyColumn valueColumn (.ok rows) s =
      (.ok (), ⟨some g, log⟩) ∧ KvStore.open ph g = .ok st ∧
        st.AnswersRows ph keyColumn valueColumn rows

namespace KeepsRowsApart

variable {s : Output}

theorem of_bad_row (hrow : row ∈ rows) (hr : ∀ r, ¬ row.Has keyColumn valueColumn r) :
    KeepsRowsApart ph sha256 env keyColumn valueColumn rows s := by
  obtain ⟨e, he⟩ := readRows_err hrow hr
  refine Or.inl ⟨e, s, ?_⟩
  unfold buildFromCsv
  rw [Outcome.ofExcept_ok, Outcome.mapErr_ok, Eff.liftM_ok_bind, he]
  rfl

variable (hall : ∀ row ∈ rows, ∃ r, row.Has keyColumn valueColumn r)

include hall

theorem csvRecords_ne_nil (hne : rows ≠ []) : csvRecords keyColumn valueColumn rows ≠ [] := by
  intro h
  have hl := length_csvRecords hall
  rw [h] at hl
  exact hne (List.eq_nil_of_length_eq_zero hl.symm)

theorem import_panics (hne : rows ≠ [])
    (hp : ph.fromSliceWithConf ((csvRecords keyColumn valueColumn rows).map Prod.fst) = .panic) :
    buildFromCsv ph sha256 env keyColumn valueColumn (.ok rows) s = (.panic, s) := by
  rw [buildFromCsv_of_readRows (readRows_ok hall)]
  exact SnapshotBuilder.build_of_panic (csvRecords_ne_nil hall hne) hp

theorem not_of_panic (hne : rows ≠ [])
    (hp : ph.fromSliceWithConf ((csvRecords keyColumn valueColumn rows).map Prod.fst) = .panic) :
    ¬ KeepsRowsApart ph sha256 env keyColumn valueColumn rows s :=
  not_refused_or_opens_of_panic (import_panics hall hne hp) _

theorem iff_of_indexes {fn : Fn} {image : List UInt8} (hne : rows ≠ [])
    (hlen : rows.length < 2 ^ 64)
    (hi : ph.Indexes ((csvRecords keyColumn valueColumn rows).map Prod.fst) fn image)
    (hm : 8 + image.length < 2 ^ 63) (old : Option File) :
    KeepsRowsApart ph sha256 (.faultless t) keyColumn valueColumn rows ⟨old, []⟩ ↔
      RowsAgree keyColumn valueColumn rows ∧ rows.length ≤ 10000000000 := by
  have hrs := csvRecords_ne_nil hall hne
  unfold KeepsRowsApart
  simp only [buildFromCsv_of_readRows (readRows_ok hall), KvStore.answersRows_iff, rowsAgree_iff]
  rw [← length_csvRecords hall] at hlen ⊢
  generalize csvRecords keyColumn valueColumn rows = rs at hlen hi hrs ⊢
  constructor
  · rintro (⟨e, s', h⟩ | ⟨g, log, st, h, ho, hget⟩)
    · exact absurd h (SnapshotBuilder.build_ne_err hrs hi)
    · refine ⟨fun k v v' hv hv' => ?_, (len_of_build_open hlen h ho).1⟩
      have := (hget k v hv).symm.trans (hget k v' hv')
      exact Option.some.inj (Outcome.ok.inj this)
  · rintro ⟨hagree, hn⟩
    obtain ⟨g, log, hrun, hg, _⟩ := build_faultless sha256 t hrs hi (by omega) old
    obtain ⟨fn', ha, hfn⟩ := hg.accepts hn
    exact Or.inr ⟨g, _, _, hrun, open_eq_ok_iff.mpr ⟨fn', ha, rfl⟩,
      fun k v hv => hg.get_of_agree hfn hagree hv⟩

end KeepsRowsApart

/-- An import without failing calls is refused, or keeps the rows apart, exactly if a row lacks a
column, or the fixed-size keys are distinct and not too many. A crate that indexes repeated keys
allows them in rows with the same fixed-size value. -/
theorem csv_import_iff (hne : rows ≠ []) (hlen : rows.length < 2 ^ 64)
    (hd : ((csvRecords keyColumn valueColumn rows).map Prod.fst).Nodup → ∃ fn image,
      ph.Indexes ((csvRecords keyColumn valueColumn rows).map Prod.fst) fn image ∧
        8 + image.length < 2 ^ 63) (old : Option File) :
    ((¬ ((csvRecords keyColumn valueColumn rows).map Prod.fst).Nodup →
        ph.fromSliceWithConf ((csvRecords keyColumn valueColumn rows).map Prod.fst) = .panic) →
      (KeepsRowsApart ph sha256 (.faultless t) keyColumn valueColumn rows ⟨old, []⟩ ↔
        (∃ row ∈ rows, ∀ r, ¬ row.Has keyColumn valueColumn r) ∨
          ((csvRecords keyColumn valueColumn rows).map Prod.fst).Nodup ∧
            rows.length ≤ 10000000000)) ∧
    ((∃ fn image, ph.Indexes ((csvRecords keyColumn valueColumn rows).map Prod.fst) fn image ∧
        8 + image.length < 2 ^ 63) →
      (KeepsRowsApart ph sha256 (.faultless t) keyColumn valueColumn rows ⟨old, []⟩ ↔
        (∃ row ∈ rows, ∀ r, ¬ row.Has keyColumn valueColumn r) ∨
          RowsAgree keyColumn valueColumn rows ∧ rows.length ≤ 10000000000)) := by
  by_cases hbad : ∃ row ∈ rows, ∀ r, ¬ row.Has keyColumn valueColumn r
  · obtain ⟨row, hrow, hr⟩ := hbad
    have hkeeps : KeepsRowsApart ph sha256 (.faultless t) keyColumn valueColumn rows ⟨old, []⟩ :=
      .of_bad_row hrow hr
    exact ⟨fun _ => iff_of_true hkeeps (Or.inl ⟨row, hrow, hr⟩),
      fun _ => iff_of_true hkeeps (Or.inl ⟨row, hrow, hr⟩)⟩
  rw [or_iff_right hbad, or_iff_right hbad]
  have hall : ∀ row ∈ rows, ∃ r, row.Has keyColumn valueColumn r := by
    intro row hrow
    by_contra hr
    exact hbad ⟨row, hrow, not_exists.mp hr⟩
  constructor
  · intro hrep
    by_cases hnd : ((csvRecords keyColumn valueColumn rows).map Prod.fst).Nodup
    · obtain ⟨fn, image, hi, hm⟩ := hd hnd
      rw [KeepsRowsApart.iff_of_indexes hall hne hlen hi hm old]
      exact and_congr_left fun _ => iff_of_true (rowsAgree_of_nodup hnd) hnd
    · exact iff_of_false (KeepsRowsApart.not_of_panic hall hne (hrep hnd)) fun h => hnd h.1
  · rintro ⟨fn, image, hi, hm⟩
    exact KeepsRowsApart.iff_of_indexes hall hne hlen hi hm old

def distinctRows : List CsvRow := [.ok ["a", "x"], .ok ["b", "y"]]

theorem csv_import_iff_two :
    KeepsRowsApart listIndex twoDigest (.faultless 0) 0 1 distinctRows ⟨none, []⟩ := by
  have hnd : ((csvRecords 0 1 distinctRows).map Prod.fst).Nodup := by decide
  refine ((csv_import_iff (by simp [distinctRows]) (by decide) (fun _ => ?_) none).1
    listIndex_panic).mpr (Or.inr ⟨hnd, by decide⟩)
  refine ⟨_, _, listIndex_indexes hnd (by decide), ?_⟩
  rw [ListIndex.length_write]
  decide

/-- Two rows whose key strings differ by a zero byte. -/
def collidingRows : List CsvRow := [.ok ["a", "x"], .ok ["a\x00", "y"]]

/-- Two distinct key strings become one key, on which the import panics and leaves the output. -/
theorem csv_collision :
    buildFromCsv listIndex twoDigest (.faultless 0) 0 1 (.ok collidingRows) ⟨some pageFile, []⟩ =
        (.panic, ⟨some pageFile, []⟩) ∧ "a" ≠ "a\x00" ∧ stringToKey "a" = stringToKey "a\x00" ∧
      ¬ KeepsRowsApart listIndex twoDigest (.faultless 0) 0 1 collidingRows
        ⟨some pageFile, []⟩ := by
  have hall : ∀ row ∈ collidingRows, ∃ r, row.Has 0 1 r := by
    rintro row hrow
    rcases List.mem_pair.mp hrow with rfl | rfl
    · exact ⟨("a", "x"), _, rfl, rfl, rfl⟩
    · exact ⟨("a\x00", "y"), _, rfl, rfl, rfl⟩
  have hne : collidingRows ≠ [] := by simp [collidingRows]
  have hp : listIndex.fromSliceWithConf ((csvRecords 0 1 collidingRows).map Prod.fst) = .panic :=
    listIndex_panic (by decide)
  exact ⟨KeepsRowsApart.import_panics hall hne hp, by decide, by decide,
    KeepsRowsApart.not_of_panic hall hne hp⟩

end LowLatencyKv
