import GlassChain.Indexer.Lineage

/-!
# Rows of comma-separated values

`to_csv_row` quotes its last column only. A row is read back by a reader of RFC 4180 exactly where
no other column holds a comma, a quote or a line break.
-/

namespace GlassChain

open List

inductive CsvMode where
  /-- Nothing of the row was read. -/
  | line
  | start
  | plain
  | quoted
  /-- After a quote inside a quoted field. -/
  | closing
  /-- After a carriage return outside of quotes. -/
  | ending
  deriving DecidableEq

structure CsvReader where
  rows : List (List String)
  row : List String
  field : List Char
  mode : CsvMode

namespace CsvReader

def fields (p : CsvReader) : List String := p.row ++ [String.ofList p.field]

def step (p : CsvReader) (c : Char) : Option CsvReader :=
  match p.mode with
  | .quoted =>
    if c = '"' then some { p with mode := .closing } else some { p with field := p.field ++ [c] }
  | .ending => if c = '\n' then some ⟨p.rows ++ [p.fields], [], [], .line⟩ else none
  | mode =>
    if c = ',' then some ⟨p.rows, p.fields, [], .start⟩
    else if c = '\r' then some { p with mode := .ending }
    else if c = '\n' then none
    else if c = '"' then match mode with
      | .plain => none
      | .closing => some { p with field := p.field ++ [c], mode := .quoted }
      | _ => some { p with mode := .quoted }
    else if mode = .closing then none
    else some { p with field := p.field ++ [c], mode := .plain }

def finish (p : CsvReader) : Option (List (List String)) :=
  match p.mode with
  | .line => some p.rows
  | .quoted | .ending => none
  | _ => some (p.rows ++ [p.fields])

end CsvReader

/-- Any character but a quote, a comma and a line break is text. -/
def parseCsv (text : String) : Option (List (List String)) :=
  (text.toList.foldlM CsvReader.step ⟨[], [], [], .line⟩).bind CsvReader.finish

namespace AnalyticalFlattener

def opt (v : Option String) : String := v.getD ""

def quote (s : String) : String :=
  if ',' ∈ s.toList ∨ '"' ∈ s.toList ∨ '\n' ∈ s.toList then
    "\"" ++ String.ofList (s.toList.flatMap fun c => if c = '"' then ['"', '"'] else [c]) ++ "\""
  else s

def csvColumns : List (String × (FlatAssetRecord → String)) :=
  [("block_index", fun r => toString r.blockIndex),
    ("block_hash", (·.blockHash)),
    ("block_timestamp", fun r => toString r.blockTimestamp),
    ("transaction_id", (·.transactionId)),
    ("transaction_timestamp", fun r => toString r.transactionTimestamp),
    ("gtin", fun r => opt r.gtin),
    ("batch_number", fun r => opt r.batchNumber),
    ("expiry_date", fun r => opt r.expiryDate),
    ("serial_number", fun r => opt r.serialNumber),
    ("anvisa_registration", fun r => opt r.anvisaRegistration),
    ("manufacturer_id", fun r => opt r.manufacturerId),
    ("product_name", (·.productName)),
    ("custodian_id", (·.custodianId)),
    ("country_of_origin", fun r => opt r.countryOfOrigin),
    ("storage_temp_celsius", fun r => opt r.storageTempCelsius),
    ("quantity", fun r => toString r.quantity),
    ("event_type", (·.eventType)),
    ("originator_id", (·.originatorId)),
    ("purchase_order_ref", fun r => opt r.purchaseOrderRef),
    ("trust_score", fun r => toString r.trustScore),
    ("is_standard_compliant", fun r => toString r.isStandardCompliant)]

def toCsvHeader : String := ",".intercalate (csvColumns.map Prod.fst ++ ["missing_core_fields"])

def toCsvRow (record : FlatAssetRecord) : String :=
  ",".intercalate (csvColumns.map (·.2 record) ++ [quote record.missingCoreFields])

def csvValues (record : FlatAssetRecord) : List String :=
  csvColumns.map (·.2 record) ++ [record.missingCoreFields]

end AnalyticalFlattener

def Unquoted (text : List Char) : Prop :=
  ∀ c ∈ text, c ≠ ',' ∧ c ≠ '"' ∧ c ≠ '\r' ∧ c ≠ '\n'

instance (text : List Char) : Decidable (Unquoted text) := List.decidableBAll _ text

@[simp] lemma unquoted_toDigits (n : Nat) : Unquoted (Nat.toDigits 10 n) := by
  intro c member
  have digit := Nat.isDigit_of_mem_toDigits (by decide) (by decide) member
  refine ⟨?_, ?_, ?_, ?_⟩ <;> rintro rfl <;> cases digit

@[simp] lemma unquoted_bool (b : Bool) : Unquoted (toString b).toList := by cases b <;> decide

namespace CsvReader

lemma foldlM_unquoted {text : List Char} (clean : Unquoted text) {p : CsvReader}
    (ready : p.mode = .line ∨ p.mode = .start ∨ p.mode = .plain) :
    text.foldlM step p =
      some { p with field := p.field ++ text, mode := if text = [] then p.mode else .plain } := by
  induction text generalizing p with
  | nil => simp
  | cons c text ih =>
    obtain ⟨comma, quote, cr, lf⟩ := clean c (by simp)
    have read : p.step c = some { p with field := p.field ++ [c], mode := .plain } := by
      rcases ready with mode | mode | mode <;> simp [step, mode, comma, quote, cr, lf]
    rw [foldlM_cons, read, Option.bind_eq_bind, Option.bind_some,
      ih (fun d member => clean d (by simp [member])) (by simp)]
    simp

/-- Quotes inside of quotes are doubled. -/
theorem foldlM_doubled (text : List Char) {p : CsvReader} (quoted : p.mode = .quoted) :
    (text.flatMap fun c => if c = '"' then ['"', '"'] else [c]).foldlM step p =
      some { p with field := p.field ++ text } := by
  induction text generalizing p with
  | nil => simp
  | cons c text ih =>
    rw [flatMap_cons, foldlM_append]
    by_cases same : c = '"' <;> simp [same, step, quoted, ih]

lemma foldlM_column {text : String} (clean : Unquoted text.toList) {p : CsvReader}
    (ready : p.mode = .line ∨ p.mode = .start) (fresh : p.field = []) (rest : List Char) :
    (text.toList ++ ',' :: rest).foldlM step p =
      rest.foldlM step ⟨p.rows, p.row ++ [text], [], .start⟩ := by
  have comma (q : CsvReader) (outside : q.mode = .line ∨ q.mode = .start ∨ q.mode = .plain) :
      q.step ',' = some ⟨q.rows, q.fields, [], .start⟩ := by
    rcases outside with mode | mode | mode <;> simp [step, mode]
  rw [foldlM_append, foldlM_unquoted clean (ready.imp_right .inl), Option.bind_eq_bind,
    Option.bind_some, foldlM_cons, comma _ (by grind)]
  simp [fields, fresh]

lemma foldlM_columns {columns : List String} (clean : ∀ text ∈ columns, Unquoted text.toList)
    (last : List Char) {p : CsvReader} (ready : p.mode = .line ∨ p.mode = .start)
    (fresh : p.field = []) :
    ([','].intercalate (columns.map String.toList ++ [last])).foldlM step p =
      last.foldlM step ⟨p.rows, p.row ++ columns, [], if columns = [] then p.mode else .start⟩ := by
  induction columns generalizing p with
  | nil => simp [← fresh]
  | cons text columns ih =>
    rw [map_cons, cons_append, intercalate_cons_of_ne_nil (by simp),
      append_assoc, singleton_append, foldlM_column (clean text (by simp)) ready fresh]
    simp [ih fun text member => clean text (by simp [member])]

/-- A column that is quoted where it must be. -/
theorem foldlM_quote {text : String}
    (returns : '\r' ∈ text.toList → ',' ∈ text.toList ∨ '"' ∈ text.toList ∨ '\n' ∈ text.toList)
    (rows : List (List String)) (row : List String) :
    ((AnalyticalFlattener.quote text).toList.foldlM step ⟨rows, row, [], .start⟩).bind finish =
      some (rows ++ [row ++ [text]]) := by
  unfold AnalyticalFlattener.quote
  split
  · simp only [String.toList_append, String.toList_ofList, append_assoc, foldlM_append]
    rw [show "\"".toList = ['"'] from rfl]
    simp [step, foldlM_doubled, finish, fields]
  · have clean : Unquoted text.toList := by grind [Unquoted]
    rw [foldlM_unquoted clean (by simp)]
    by_cases empty : text = "" <;> simp [empty, finish, fields]

/-- What a character does: it extends the open field or changes the mode, or it ends a field or a
row. -/
theorem step_cases {p q : CsvReader} {c : Char} (read : p.step c = some q) :
    (p.mode ≠ .ending ∧ ∃ more mode, mode ≠ .line ∧ q = { p with field := p.field ++ more, mode }) ∨
      q = ⟨p.rows, p.fields, [], .start⟩ ∨ q = ⟨p.rows ++ [p.fields], [], [], .line⟩ := by
  obtain ⟨rows, row, field, mode⟩ := p
  have same : field = field ++ [] := by simp
  cases mode <;> simp only [step] at read <;> grind

/-- What a reading can still give: the rows stay, and a begun row keeps its fields and the start of
its open field, which ends with a carriage return. -/
def Kept (p : CsvReader) (result : List (List String)) : Prop :=
  ∃ more, result = p.rows ++ more ∧ (p.mode ≠ .line → ∃ added rest later,
    more = (p.row ++ String.ofList (p.field ++ added) :: rest) :: later ∧
      (p.mode = .ending → added = []))

lemma kept_of_step {p q : CsvReader} {c : Char} {result : List (List String)}
    (read : p.step c = some q) (kept : q.Kept result) : p.Kept result := by
  obtain ⟨more, rfl, inRow⟩ := kept
  rcases step_cases read with ⟨closed, new, mode, begun, rfl⟩ | rfl | rfl
  · obtain ⟨added, rest, later, rfl, -⟩ := inRow begun
    exact ⟨_, rfl, fun _ => ⟨new ++ added, rest, later, by simp, fun ended => absurd ended closed⟩⟩
  · obtain ⟨added, rest, later, rfl, -⟩ := inRow (by simp)
    exact ⟨_, rfl, fun _ => ⟨[], _, later, by simp [fields]; rfl, fun _ => rfl⟩⟩
  · exact ⟨p.fields :: more, by simp, fun _ => ⟨[], [], more, by simp [fields], fun _ => rfl⟩⟩

lemma kept_of_finish {p : CsvReader} {result : List (List String)} (read : p.finish = some result) :
    p.Kept result := by
  obtain ⟨rows, row, field, mode⟩ := p
  cases mode <;> simp only [finish, Option.some.injEq, reduceCtorEq] at read <;> subst read
  case line => exact ⟨[], by simp, fun begun => absurd rfl begun⟩
  all_goals exact ⟨_, rfl, fun _ => ⟨[], [], [], by simp [fields], fun _ => rfl⟩⟩

lemma foldlM_step (p : CsvReader) (c : Char) (text : List Char) :
    ((c :: text).foldlM step p).bind finish =
      (p.step c).bind fun q => (text.foldlM step q).bind finish := by
  rw [foldlM_cons, Option.bind_eq_bind, Option.bind_assoc]

lemma kept_of_read {text : List Char} {p : CsvReader} {result : List (List String)}
    (read : (text.foldlM step p).bind finish = some result) : p.Kept result := by
  induction text generalizing p with
  | nil => exact kept_of_finish read
  | cons c text ih =>
    rw [foldlM_step, Option.bind_eq_some_iff] at read
    obtain ⟨q, stepped, read⟩ := read
    exact kept_of_step stepped (ih read)

section Reading

variable {text : List Char} {p : CsvReader} {row others : List String} {field : String}

/-- The field that is read in a row starts with what is open of it. -/
theorem field_of_read (read : (text.foldlM step p).bind finish = some [p.row ++ field :: others])
    (first : p.rows = []) (inRow : p.mode ≠ .line) :
    p.field <+: field.toList ∧ (p.mode = .ending → p.field = field.toList) := by
  obtain ⟨more, same, kept⟩ := kept_of_read read
  obtain ⟨added, rest, later, rfl, ended⟩ := kept inRow
  simp only [first, nil_append, List.cons.injEq, append_cancel_left_eq] at same
  obtain ⟨⟨rfl, -⟩, -⟩ := same
  exact ⟨by simp, fun closed => by simp [ended closed]⟩

/-- A field that was ended before is the field that is read. -/
theorem ended_of_read {ended : List Char}
    (read : (text.foldlM step ⟨[], row ++ [String.ofList ended], [], .start⟩).bind finish =
      some [row ++ field :: others]) : ended = field.toList := by
  obtain ⟨more, same, kept⟩ := kept_of_read read
  obtain ⟨added, rest, later, rfl, -⟩ := kept (by simp)
  simp only [nil_append, append_assoc, List.cons.injEq, append_cancel_left_eq,
    singleton_append] at same
  simp [same.1.1]

/-- Of the quotes that a field starts with, an opening one is not read and the others are read in
pairs, so that fewer are read than there are. -/
theorem not_read_quoted {text rest : List Char} (quotes : Nat) {p : CsvReader}
    (quoted : p.mode = .quoted) (first : p.rows = [])
    (read : ((text ++ ',' :: rest).foldlM step p).bind finish = some [p.row ++
      String.ofList (p.field ++ '"' :: (List.replicate quotes '"' ++ text)) :: others]) : False := by
  -- a character that is no quote is read as it is, where the field goes on with a quote
  have plain {c : Char} (ne : c ≠ '"') {tail target : List Char}
      (read : ((c :: tail).foldlM step p).bind finish =
        some [p.row ++ String.ofList (p.field ++ '"' :: target) :: others]) : False := by
    have stepped : p.step c = some { p with field := p.field ++ [c] } := by simp [step, quoted, ne]
    rw [foldlM_step, stepped, Option.bind_some] at read
    obtain ⟨⟨added, same⟩, -⟩ := field_of_read read first (by simp [quoted])
    simp [ne] at same
  -- after a closing quote the field ends
  have closes {c : Char} (ne : c ≠ '"') {tail target : List Char}
      (read : (('"' :: c :: tail).foldlM step p).bind finish =
        some [p.row ++ String.ofList (p.field ++ '"' :: target) :: others]) : False := by
    have stepped : p.step '"' = some { p with mode := .closing } := by simp [step, quoted]
    rw [foldlM_step, stepped, Option.bind_some, foldlM_step] at read
    by_cases comma : c = ','
    · simp only [step, comma, if_true, Option.bind_some, first, fields] at read
      simpa using ended_of_read read
    · by_cases cr : c = '\r'
      · simp only [step, cr] at read
        simpa using (field_of_read read first (by simp)).2 rfl
      · by_cases lf : c = '\n' <;> simp [step, comma, cr, lf, ne] at read
  match text with
  | [] => exact plain (by decide) read
  | [c] =>
    by_cases quote : c = '"'
    · exact closes (by decide) (quote ▸ read)
    · exact plain quote read
  | c :: d :: text =>
    by_cases quote : c = '"'
    · subst quote
      by_cases quote : d = '"'
      · subst quote
        have stepped : p.step '"' = some { p with mode := .closing } := by simp [step, quoted]
        have again : step { p with mode := .closing } '"' =
          some { p with field := p.field ++ ['"'], mode := .quoted } := by simp [step]
        rw [cons_append, foldlM_step, stepped, Option.bind_some, cons_append, foldlM_step,
          again, Option.bind_some] at read
        have turned : List.replicate quotes '"' ++ '"' :: '"' :: text =
            '"' :: (List.replicate (quotes + 1) '"' ++ text) := by
          rw [append_cons, append_cons, ← replicate_succ', ← replicate_succ',
            replicate_succ, cons_append]
        exact not_read_quoted (p := { p with field := p.field ++ ['"'], mode := .quoted })
          (quotes + 1) rfl first (read.trans (by rw [turned]; simp))
      · exact closes quote read
    · exact plain quote read
  termination_by text.length

lemma exists_unquoted_split {text : List Char} (dirty : ¬Unquoted text) :
    ∃ u c v, text = u ++ c :: v ∧ Unquoted u ∧ (c = ',' ∨ c = '"' ∨ c = '\r' ∨ c = '\n') := by
  induction text with
  | nil => exact absurd (by simp [Unquoted]) dirty
  | cons c text ih =>
    by_cases bad : c = ',' ∨ c = '"' ∨ c = '\r' ∨ c = '\n'
    · exact ⟨[], c, text, rfl, by simp [Unquoted], bad⟩
    · have good : c ≠ ',' ∧ c ≠ '"' ∧ c ≠ '\r' ∧ c ≠ '\n' := by tauto
      obtain ⟨u, d, v, rfl, clean, worse⟩ := ih fun clean =>
        dirty (forall_mem_cons.mpr ⟨good, clean⟩)
      exact ⟨c :: u, d, v, rfl, forall_mem_cons.mpr ⟨good, clean⟩, worse⟩

/-- A column that is written as it is and read back needs no quotes. -/
theorem unquoted_of_read {rest : List Char} (ready : p.mode = .line ∨ p.mode = .start)
    (fresh : p.field = []) (first : p.rows = [])
    (read : ((text ++ ',' :: rest).foldlM step p).bind finish =
      some [p.row ++ String.ofList text :: others]) : Unquoted text := by
  by_contra dirty
  obtain ⟨u, c, v, rfl, clean, bad⟩ := exists_unquoted_split dirty
  rw [append_assoc, foldlM_append, foldlM_unquoted clean (by tauto), fresh,
    Option.bind_eq_bind, Option.bind_some, cons_append, foldlM_step] at read
  obtain ⟨mode, known, outside⟩ : ∃ mode, mode = (if u = [] then p.mode else .plain) ∧
      (mode = .plain ∨ (mode = .line ∨ mode = .start) ∧ u = []) := ⟨_, rfl, by grind⟩
  rw [← known] at read
  rcases bad with rfl | rfl | rfl | rfl
  · have ended : step ⟨p.rows, p.row, [] ++ u, mode⟩ ',' =
        some ⟨[], p.row ++ [String.ofList u], [], .start⟩ := by
      rcases outside with rfl | ⟨rfl | rfl, -⟩ <;> simp [step, first, fields]
    rw [ended, Option.bind_some] at read
    simpa using ended_of_read read
  · rcases outside with rfl | ⟨outside, rfl⟩
    · simp [step] at read
    · have opened : step ⟨p.rows, p.row, [] ++ [], mode⟩ '"' = some ⟨[], p.row, [], .quoted⟩ := by
        rcases outside with rfl | rfl <;> simp [step, first]
      rw [opened, Option.bind_some] at read
      exact not_read_quoted (p := ⟨[], p.row, [], .quoted⟩) 0 rfl rfl read
  · have ending : step ⟨p.rows, p.row, [] ++ u, mode⟩ '\r' = some ⟨[], p.row, u, .ending⟩ := by
      rcases outside with rfl | ⟨rfl | rfl, -⟩ <;> simp [step, first]
    rw [ending, Option.bind_some] at read
    simpa using (field_of_read (p := ⟨[], p.row, u, .ending⟩) read rfl (by simp)).2 rfl
  · rcases outside with rfl | ⟨rfl | rfl, -⟩ <;> simp [step] at read

lemma columns_of_read {columns : List String} {last : List Char} {p : CsvReader}
    (ready : p.mode = .line ∨ p.mode = .start) (fresh : p.field = []) (first : p.rows = [])
    (read : (([','].intercalate (columns.map String.toList ++ [last])).foldlM step p).bind finish =
      some [p.row ++ columns ++ others]) : ∀ text ∈ columns, Unquoted text.toList := by
  induction columns generalizing p with
  | nil => simp
  | cons text columns ih =>
    rw [map_cons, cons_append, intercalate_cons_of_ne_nil (by simp),
      append_assoc, singleton_append] at read
    have clean : Unquoted text.toList :=
      unquoted_of_read ready fresh first <| read.trans <|
        show _ = some [p.row ++ String.ofList text.toList :: (columns ++ others)] by simp
    rw [foldlM_column clean ready fresh] at read
    exact forall_mem_cons.mpr ⟨clean, ih (p := ⟨p.rows, p.row ++ [text], [], .start⟩) (.inr rfl)
      rfl first (read.trans (by simp))⟩

/-- A last column that is read is quoted if it holds a carriage return. -/
theorem returns_of_read {text : String} {p : CsvReader} {result : List (List String)}
    (start : p.mode = .start)
    (read : ((AnalyticalFlattener.quote text).toList.foldlM step p).bind finish = some result)
    (cr : '\r' ∈ text.toList) : ',' ∈ text.toList ∨ '"' ∈ text.toList ∨ '\n' ∈ text.toList := by
  by_contra unquoted
  obtain ⟨u, v, split, before⟩ := eq_append_cons_of_mem cr
  rw [split] at unquoted
  have clean : Unquoted u := by grind [Unquoted]
  have ending (q : CsvReader) (outside : q.mode = .start ∨ q.mode = .plain) :
      q.step '\r' = some { q with mode := .ending } := by
    rcases outside with mode | mode <;> simp [step, mode]
  rw [AnalyticalFlattener.quote, split, if_neg unquoted, split, foldlM_append,
    foldlM_unquoted clean (by simp [start]), Option.bind_eq_bind, Option.bind_some, foldlM_step,
    ending _ (by grind), Option.bind_some] at read
  cases v with
  | nil => simp [finish] at read
  | cons c v =>
    have other : c ≠ '\n' := by grind
    simp [step, other] at read

end Reading

end CsvReader

/-- Columns of which only the last one is quoted are read back exactly where the others need no
quotes and the last one is quoted if it holds a carriage return. -/
theorem parseCsv_intercalate {columns : List String} (nonempty : columns ≠ []) (last : String) :
    parseCsv (",".intercalate (columns ++ [AnalyticalFlattener.quote last])) =
        some [columns ++ [last]] ↔
      (∀ text ∈ columns, Unquoted text.toList) ∧ ('\r' ∈ last.toList →
        ',' ∈ last.toList ∨ '"' ∈ last.toList ∨ '\n' ∈ last.toList) := by
  rw [parseCsv, String.toList_intercalate, map_append, map_singleton,
    show ",".toList = [','] from rfl]
  constructor
  · intro read
    have clean := CsvReader.columns_of_read (.inl rfl) rfl rfl read
    rw [CsvReader.foldlM_columns clean _ (.inl rfl) rfl, if_neg nonempty] at read
    exact ⟨clean, CsvReader.returns_of_read (by rfl) read⟩
  · rintro ⟨clean, returns⟩
    rw [CsvReader.foldlM_columns clean _ (.inl rfl) rfl, if_neg nonempty,
      CsvReader.foldlM_quote returns]
    rfl

section Rows

open AnalyticalFlattener

/-- A row reads back as its rendered values, one under each name of the header, exactly where no
column but the last one holds a comma, a quote or a line break and the last one is quoted if it
holds a carriage return. -/
theorem csv_row_round_trip_iff (record : FlatAssetRecord) :
    (parseCsv (toCsvRow record) = some [csvValues record] ↔
      (∀ column ∈ csvColumns, Unquoted (column.2 record).toList) ∧
      ('\r' ∈ record.missingCoreFields.toList → ',' ∈ record.missingCoreFields.toList ∨
        '"' ∈ record.missingCoreFields.toList ∨ '\n' ∈ record.missingCoreFields.toList)) ∧
      parseCsv toCsvHeader = some [csvColumns.map Prod.fst ++ ["missing_core_fields"]] ∧
      (csvValues record).length = 22 := by
  refine ⟨?_, ?_, rfl⟩
  · rw [toCsvRow, csvValues, parseCsv_intercalate (by simp [csvColumns]), forall_mem_map]
  · have named : quote "missing_core_fields" = "missing_core_fields" := by decide
    have clean : ∀ name ∈ csvColumns.map Prod.fst, Unquoted name.toList := by
      simp [csvColumns, Unquoted]
    have read := (parseCsv_intercalate (by simp [csvColumns]) "missing_core_fields").mpr
      ⟨clean, by decide⟩
    rwa [named] at read

/-- A record with a product's name and the fields that its asset lacks. -/
def namedRecord (gtin productName missing : String) : FlatAssetRecord :=
  ⟨1, "h", 5, "t", 5, some gtin, none, none, none, none, none, productName, "c", none, none, 1,
    "Created", "o", none, 0, false, missing⟩

theorem csv_row_sample :
    parseCsv (toCsvRow (namedRecord "1" "soap" "expiry_date,\"lot\"")) =
      some [csvValues (namedRecord "1" "soap" "expiry_date,\"lot\"")] :=
  (csv_row_round_trip_iff (namedRecord "1" "soap" "expiry_date,\"lot\"")).1.mpr
    ⟨by simp [csvColumns, namedRecord, opt]; decide, by decide⟩

/-- A comma in a product's name makes one field more, and with a quote or a line break there is no
row. -/
theorem csv_row_broken :
    (parseCsv (toCsvRow (namedRecord "1" "soap, blue" ""))).map (·.map List.length) = some [23] ∧
      parseCsv (toCsvRow (namedRecord "1" "5\" pipe" "")) = none ∧
      parseCsv (toCsvRow (namedRecord "1" "soap\nblue" "")) = none := by
  decide

end Rows

end GlassChain
