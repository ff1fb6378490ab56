import P5G.Trace.RoundTrip

/-!
# Reading a file that is cut short

While a ring appends, and after a kill, a reader finds a prefix of what the ring
would have written.  Both readers know a torn line by its number of columns
alone, so a line that is cut in its last column passes for a whole one.
-/

namespace P5G
namespace Trace

open Numeral TraceIo Lines

/-- The header and the rows, without a footer. -/
def Kind.writtenText (k : Kind) (rows : List k.Row) : List Char :=
  k.fileText (.header k.header :: rows.map .row)

/-- The columns of a row before the last, each with its comma. -/
def Kind.leading (k : Kind) (r : k.Row) : List Char :=
  (k.cells r).dropLast.flatMap fun cell => cell ++ [',']

def Kind.last (k : Kind) (r : k.Row) : List Char := (k.cells r).getLast (cells_ne_nil k r)

/-- The first `n` bytes end in the last column of a row: after its last comma,
and before its end. -/
def CutsLast (k : Kind) (rows : List k.Row) (n : Nat) : Prop :=
  ∃ before r after p s, rows = before ++ r :: after ∧ k.last r = p ++ s ∧ s ≠ [] ∧
    n = (k.writtenText before).length + (k.leading r).length + p.length

theorem joined_eq (k : Kind) (r : k.Row) : k.joined r = k.leading r ++ k.last r :=
  intercalate_eq_dropLast (cells_ne_nil k r)

theorem writtenText_eq (k : Kind) (rows : List k.Row) : k.writtenText rows =
    (((k.header.toList :: rows.map k.joined)).map (· ++ ['\n'])).flatten := by
  have hhead : k.lineText (.header k.header) = k.header.toList ++ ['\n'] := lineText_eq k _
  have hrows : (rows.map TraceLine.row).flatMap k.lineText =
      ((rows.map k.joined).map (· ++ ['\n'])).flatten := by
    rw [List.flatMap_map, List.map_map, List.flatMap_def]
    exact congrArg List.flatten (List.map_congr_left fun r _ => format_joined k r)
  rw [Kind.writtenText, Kind.fileText, List.flatMap_cons, hhead, hrows]
  rfl

structure Piece (part : List Char) : Prop where
  newline : '\n' ∉ part
  carriage : '\r' ∉ part
  hash : '#' ∉ part

theorem piece_of_part {part line : List Char} (h : part <+: line)
    (hline : ∀ c ∈ ['\n', '\r', '#', '"'], c ∉ line) : Piece part :=
  ⟨fun hmem => hline _ (by decide) (h.mem hmem), fun hmem => hline _ (by decide) (h.mem hmem),
    fun hmem => hline _ (by decide) (h.mem hmem)⟩

theorem piece_header {k : Kind} {part : List Char} (h : part <+: k.header.toList) : Piece part :=
  piece_of_part h fun _ hc => not_mem_header k hc

theorem piece_joined {k : Kind} {r : k.Row} {part : List Char} (h : part <+: k.joined r) :
    Piece part :=
  piece_of_part h fun _ hc => not_mem_joined k r hc

theorem carriage_writtenText (k : Kind) (rows : List k.Row) : '\r' ∉ k.writtenText rows := by
  rw [writtenText_eq]
  intro hmem
  obtain ⟨line, hline, hc⟩ := List.mem_flatten.mp hmem
  obtain ⟨content, hcontent, rfl⟩ := List.mem_map.mp hline
  rcases List.mem_append.mp hc with hc | hc
  · rcases List.mem_cons.mp hcontent with rfl | hcontent
    · exact not_mem_header k (by decide) hc
    · obtain ⟨r, -, rfl⟩ := List.mem_map.mp hcontent
      exact not_mem_joined k r (by decide) hc
  · exact absurd hc (by decide)

/-- Whole lines, and a piece of one more. -/
theorem lines_torn (k : Kind) (before : List k.Row) {part : List Char} (hpart : Piece part) :
    fileLines (universal false (k.writtenText before ++ part)) =
      ((k.header.toList ++ ['\n']) :: before.map k.format) ++ fileLines part := by
  have hcarriage : '\r' ∉ k.writtenText before ++ part := by
    rw [List.mem_append, not_or]
    exact ⟨carriage_writtenText k before, hpart.carriage⟩
  have hnewline : ∀ l ∈ k.header.toList :: before.map k.joined, '\n' ∉ l := by
    intro l hl
    rcases List.mem_cons.mp hl with rfl | hl
    · exact not_mem_header k (by decide)
    · obtain ⟨r, -, rfl⟩ := List.mem_map.mp hl
      exact not_mem_joined k r (by decide)
  rw [universal_eq_self hcarriage, writtenText_eq, fileLines_flatten hnewline, List.map_cons,
    List.map_map]
  refine congrArg (fun rows => (_ :: rows) ++ _) (List.map_congr_left fun r _ => ?_)
  exact (format_joined k r).symm

theorem fileLines_piece {part : List Char} (hpart : '\n' ∉ part) :
    fileLines part = if part = [] then [] else [part] := by
  by_cases h : part = []
  · rw [if_pos h, h]
    rfl
  · rw [if_neg h, fileLines_singleton hpart h]

theorem readTrace_torn (k : Kind) (before : List k.Row) {part : List Char} (hpart : Piece part) :
    readTrace (some (k.writtenText before ++ part)) =
      ((fileLines part).foldlM Reading.line ⟨some k.columns, before.map k.dict, Dict.empty⟩).map
        fun r => (r.rows, r.footer) := by
  rw [readTrace, lines_torn k before hpart, List.foldlM_append, lines_body]
  rfl

/-- A piece of a line that has not its newline is a row if it has all columns,
and malformed otherwise. -/
theorem readTrace_piece (k : Kind) (before : List k.Row) {part : List Char} (hpart : Piece part)
    (hne : part ≠ []) : readTrace (some (k.writtenText before ++ part)) =
      if (part.splitOn ',').length = k.columns.length then
        .ok (before.map k.dict ++ [Dict.ofPairs (k.columns.zip ((part.splitOn ',').map num))],
          Dict.empty)
      else .ok (before.map k.dict, Dict.empty.set malformedRows (.count 1)) := by
  rw [readTrace_torn k before hpart, fileLines_piece hpart.newline, if_neg hne, List.foldlM_cons,
    Reading.line]
  simp only [chomp_of_not_mem hpart.newline]
  rw [if_neg hne, if_neg (head?_ne hpart.hash)]
  by_cases hlen : (part.splitOn ',').length = k.columns.length
  · rw [if_neg (not_not.mpr hlen), if_pos hlen]
    rfl
  · rw [if_pos hlen, if_neg hlen]
    rfl

/-! ## `rows` -/

theorem keys_record (names row : List (List Char)) :
    (names.zip (row.map some) ++
      (names.drop row.length).map fun k => (k, (none : Option (List Char)))).map Prod.fst = names := by
  induction names generalizing row with
  | nil => simp
  | cons name names ih =>
    cases row with
    | nil => simp [Function.comp_def]
    | cons cell row =>
      rw [List.map_cons, List.zip_cons_cons, List.length_cons, List.drop_succ_cons,
        List.cons_append, List.map_cons, ih]

theorem entries_record {names : List (List Char)} (hnames : names.Nodup) (row : List (List Char)) :
    (record names row).fields.entries = names.zip (row.map some) ++
      (names.drop row.length).map fun k => (k, none) :=
  Dict.entries_ofPairs ((keys_record names row).symm ▸ hnames)

/-- A row is kept if it reaches the last column. -/
theorem complete_record {names : List (List Char)} (hnames : names.Nodup)
    (row : List (List Char)) : (record names row).complete = true ↔ names.length ≤ row.length := by
  have hzip : (names.zip (row.map some)).all (fun e => e.2.isSome) = true := by
    refine List.all_eq_true.mpr fun e he => ?_
    obtain ⟨cell, -, hcell⟩ := List.mem_map.mp (List.of_mem_zip (a := e.1) (b := e.2) he).2
    rw [← hcell]
    rfl
  rw [Record.complete, entries_record hnames, List.all_append, hzip, Bool.true_and,
    ← List.drop_eq_nil_iff]
  cases names.drop row.length with
  | nil => simp
  | cons name rest => simp

theorem csvRow_of_chomp {line content : List Char} (h : chomp line = content) (hne : content ≠ []) :
    csvRow line = content.splitOn ',' := by
  rw [csvRow, h]
  split
  · exact absurd rfl hne
  · rfl

theorem csvRow_header (k : Kind) : csvRow (k.header.toList ++ ['\n']) = k.columns := by
  rw [csvRow_of_chomp (chomp_newline (not_mem_header k (by decide))) (header_ne_nil k),
    header_split]

theorem csvRow_format (k : Kind) (r : k.Row) : csvRow (k.format r) = k.cells r := by
  rw [format_joined, csvRow_of_chomp (chomp_newline (not_mem_joined k r (by decide)))
    (joined_ne_nil k r), split_joined]

def Kind.record (k : Kind) (r : k.Row) : Record := TraceIo.record k.columns (k.cells r)

def Kind.texts (k : Kind) (r : k.Row) : List (List Char × Option (List Char)) :=
  (k.fields r).map fun f => (f.1.toList, some (text f.2))

theorem entries_whole {k : Kind} {cells : List (List Char)} (h : cells.length = k.columns.length) :
    (record k.columns cells).fields.entries = k.columns.zip (cells.map some) := by
  rw [entries_record (nodup_columns k), h, List.drop_length, List.map_nil, List.append_nil]

theorem entries_texts (k : Kind) (r : k.Row) : (k.record r).fields.entries = k.texts r := by
  rw [Kind.record, entries_whole (length_cells k r), ← names_eq k r, Kind.cells, List.map_map,
    List.zip_map']
  rfl

theorem rest_record (k : Kind) (r : k.Row) : (k.record r).rest = [] := by
  rw [Kind.record, TraceIo.record, ← length_cells k r, List.drop_length]

theorem cells_kept (k : Kind) (rows : List k.Row) :
    (((rows.map k.cells).filter (· ≠ [])).map (record k.columns)).filter Record.complete =
      rows.map k.record := by
  have hcells : (rows.map k.cells).filter (· ≠ []) = rows.map k.cells := by
    refine List.filter_eq_self.mpr fun cells hcells => ?_
    obtain ⟨r, -, rfl⟩ := List.mem_map.mp hcells
    exact decide_eq_true (cells_ne_nil k r)
  rw [hcells, List.map_map, List.filter_eq_self.mpr]
  · rfl
  · intro record hrecord
    obtain ⟨r, -, rfl⟩ := List.mem_map.mp hrecord
    exact (complete_record (nodup_columns k) _).mpr (length_cells k r).ge

theorem fusionRows_torn (k : Kind) (before : List k.Row) {part : List Char} (hpart : Piece part) :
    fusionRows (some (k.writtenText before ++ part)) = before.map k.record ++
      ((((fileLines part).map csvRow).filter (· ≠ [])).map (record k.columns)).filter
        Record.complete := by
  have hlines : ∀ l ∈ ((k.header.toList ++ ['\n']) :: before.map k.format) ++ fileLines part,
      decide (l.head? ≠ some '#') = true := by
    intro l hl
    refine decide_eq_true (head?_ne ?_)
    rcases List.mem_append.mp hl with hl | hl
    · rcases List.mem_cons.mp hl with rfl | hl
      · exact fun hmem => (List.mem_append.mp hmem).elim (not_mem_header k (by decide)) (by decide)
      · obtain ⟨r, -, rfl⟩ := List.mem_map.mp hl
        rw [format_joined]
        exact fun hmem =>
          (List.mem_append.mp hmem).elim (not_mem_joined k r (by decide)) (by decide)
    · rw [fileLines_piece hpart.newline] at hl
      split at hl
      · cases hl
      · rw [List.mem_singleton.mp hl]
        exact hpart.hash
  have hrows : (before.map k.format).map csvRow = before.map k.cells := by
    rw [List.map_map]
    exact List.map_congr_left fun r _ => csvRow_format k r
  rw [fusionRows, lines_torn k before hpart, List.filter_eq_self.mpr hlines, dictReader,
    List.cons_append, List.map_cons, csvRow_header, List.map_append, hrows]
  dsimp only
  rw [List.filter_append, List.map_append, List.filter_append, cells_kept]

/-- A piece of a row that has not its newline is a row if it has all columns. -/
theorem fusionRows_piece (k : Kind) (before : List k.Row) {part : List Char} (hpart : Piece part)
    (hne : part ≠ []) : fusionRows (some (k.writtenText before ++ part)) =
      before.map k.record ++ if k.columns.length ≤ (part.splitOn ',').length then
        [record k.columns (part.splitOn ',')] else [] := by
  have hrow : csvRow part = part.splitOn ',' := csvRow_of_chomp (chomp_of_not_mem hpart.newline) hne
  have hfilter : [part.splitOn ','].filter (· ≠ []) = [part.splitOn ','] := by simp
  rw [fusionRows_torn k before hpart, fileLines_piece hpart.newline, if_neg hne,
    List.map_singleton, hrow, hfilter, List.map_singleton]
  by_cases hlen : k.columns.length ≤ (part.splitOn ',').length
  · rw [if_pos hlen, List.filter_cons_of_pos ((complete_record (nodup_columns k) _).mpr hlen),
      List.filter_nil]
  · rw [if_neg hlen, List.filter_cons_of_neg (mt (complete_record (nodup_columns k) _).mp hlen),
      List.filter_nil]

/-! ## Where a cut falls -/

theorem not_comma {k : Kind} {r : k.Row} : ∀ cell ∈ k.cells r, ',' ∉ cell :=
  fun cell hcell hmem => clean_cells k r cell hcell ',' hmem (by decide)

theorem cells_eq (k : Kind) (r : k.Row) : k.cells r = (k.cells r).dropLast ++ [k.last r] :=
  (List.dropLast_append_getLast (cells_ne_nil k r)).symm

/-- A row that is cut in its last column has all columns. -/
theorem split_leading (k : Kind) (r : k.Row) {p : List Char} (hp : p <+: k.last r) :
    (k.leading r ++ p).splitOn ',' = (k.cells r).dropLast ++ [p] := by
  have hcomma : ∀ cell ∈ (k.cells r).dropLast ++ [p], ',' ∉ cell := by
    intro cell hcell
    rcases List.mem_append.mp hcell with hcell | hcell
    · exact not_comma cell (List.dropLast_subset _ hcell)
    · rw [List.mem_singleton.mp hcell]
      exact fun hmem => not_comma _ (List.getLast_mem (cells_ne_nil k r)) (hp.mem hmem)
  have hjoin := List.splitOn_intercalate ',' hcomma (by simp)
  rwa [intercalate_eq_dropLast (by simp), List.dropLast_concat, List.getLast_append_singleton]
    at hjoin

theorem length_split_leading (k : Kind) (r : k.Row) (p : List Char) :
    ((k.cells r).dropLast ++ [p]).length = k.columns.length := by
  have hlen := congrArg List.length (cells_eq k r)
  rw [length_cells, List.length_append] at hlen
  rw [List.length_append, hlen]
  rfl

/-- A piece of a row misses a column, or is whole, or is cut in the last one. -/
theorem piece_cases {k : Kind} {r : k.Row} {part : List Char} (h : part <+: k.joined r) :
    (part.splitOn ',').length < k.columns.length ∨ part = k.joined r ∨
      ∃ p s, k.last r = p ++ s ∧ s ≠ [] ∧ part = k.leading r ++ p := by
  obtain ⟨before, f, after, p, hcells, ⟨s, rfl⟩, hsplit⟩ :=
    splitOn_prefix not_comma (cells_ne_nil k r) h
  by_cases hafter : after = []
  · subst hafter
    right
    have hlast : k.last r = p ++ s := by
      simp only [Kind.last, hcells, List.getLast_append_singleton]
    have hpart : part = k.leading r ++ p := by
      have hjoin : [','].intercalate (part.splitOn ',') = part := List.intercalate_splitOn ','
      rw [← hjoin, hsplit,
        intercalate_eq_dropLast (by simp), List.dropLast_concat, List.getLast_append_singleton,
        Kind.leading, hcells, List.dropLast_concat]
    by_cases hs : s = []
    · left
      rw [hpart, joined_eq, hlast, hs, List.append_nil]
    · exact .inr ⟨p, s, hlast, hs, hpart⟩
  · left
    have hlen := congrArg List.length hcells
    have hmore := List.length_pos_iff.mpr hafter
    rw [length_cells, List.length_append, List.length_cons] at hlen
    rw [hsplit, hlen, List.length_append]
    simp
    omega

/-- The first `n` bytes are a piece of the header, or whole lines and a piece of
the next row. -/
theorem take_writtenText (k : Kind) (rows : List k.Row) (n : Nat) :
    ((k.writtenText rows).take n <+: k.header.toList) ∨
      ∃ before part after, rows = before ++ after ∧
        (k.writtenText rows).take n = k.writtenText before ++ part ∧
        (part = [] ∨ ∃ r rest, after = r :: rest ∧ part <+: k.joined r ∧
          n = (k.writtenText before).length + part.length) := by
  have hprefix {line part : List Char} (h : part <+: line ++ ['\n']) (hne : part ≠ line ++ ['\n']) :
      part <+: line := (List.prefix_concat_iff.mp h).resolve_left hne
  obtain ⟨whole, part, torn, hlines, htake, hcut⟩ :=
    take_flatten ((k.header.toList :: rows.map k.joined).map (· ++ ['\n'])) n
  obtain ⟨lines, more, hsplit, rfl, rfl⟩ := List.map_eq_append_iff.mp hlines
  rw [← writtenText_eq] at htake
  cases lines with
  | nil =>
    left
    rw [List.nil_append] at hsplit
    subst hsplit
    rcases hcut with ⟨hnil, -⟩ | ⟨block, rest, hblock, hpart, hne, -⟩
    · cases hnil
    · obtain ⟨rfl, -⟩ := List.cons.inj hblock
      rw [htake]
      exact hprefix hpart hne
  | cons line lines =>
    right
    obtain ⟨rfl, hrows⟩ := List.cons.inj hsplit
    obtain ⟨before, after, rfl, rfl, rfl⟩ := List.map_eq_append_iff.mp hrows
    rw [← writtenText_eq] at htake hcut
    refine ⟨before, part, after, rfl, htake, ?_⟩
    rcases hcut with ⟨-, rfl⟩ | ⟨block, rest, hblock, hpart, hne, hn⟩
    · exact .inl rfl
    · cases after with
      | nil => cases hblock
      | cons r after =>
        obtain ⟨rfl, -⟩ := List.cons.inj hblock
        exact .inr ⟨r, after, rfl, hprefix hpart hne, hn⟩

theorem writtenText_append (k : Kind) (before after : List k.Row) :
    k.writtenText (before ++ after) = k.writtenText before ++ after.flatMap k.format := by
  rw [Kind.writtenText, Kind.fileText, List.map_append, ← List.cons_append, List.flatMap_append,
    List.flatMap_map]
  rfl

theorem take_cutsLast (k : Kind) (before : List k.Row) {r : k.Row} (after : List k.Row)
    {p s : List Char} (hlast : k.last r = p ++ s) :
    (k.writtenText (before ++ r :: after)).take
        ((k.writtenText before).length + (k.leading r).length + p.length) =
      k.writtenText before ++ (k.leading r ++ p) := by
  have hsplit : k.writtenText (before ++ r :: after) =
      (k.writtenText before ++ (k.leading r ++ p)) ++ (s ++ '\n' :: after.flatMap k.format) := by
    rw [writtenText_append, List.flatMap_cons, format_joined, joined_eq, hlast]
    simp
  rw [hsplit]
  refine List.take_left' ?_
  rw [List.length_append, List.length_append, Nat.add_assoc]

/-- `read_trace` returns the first rows as they were written. -/
def ReadsFirst (k : Kind) (rows : List k.Row) (text : List Char) : Prop :=
  ∃ read footer m, readTrace (some text) = .ok (read, footer) ∧
    read.map Dict.entries = (rows.take m).map k.items

/-- `rows` returns the first rows as they were written, each value as its text. -/
def RowsFirst (k : Kind) (rows : List k.Row) (text : List Char) : Prop :=
  ∃ m, ((fusionRows (some text)).map fun r => (r.fields.entries, r.rest)) =
    (rows.take m).map fun r => (k.texts r, [])

theorem map_dict (k : Kind) (rows : List k.Row) :
    (rows.map k.dict).map Dict.entries = rows.map k.items := by
  rw [List.map_map]
  exact List.map_congr_left fun r _ => entries_dict k r

theorem map_record (k : Kind) (rows : List k.Row) :
    ((rows.map k.record).map fun r => (r.fields.entries, r.rest)) =
      rows.map fun r => (k.texts r, []) := by
  rw [List.map_map]
  exact List.map_congr_left fun r _ => Prod.ext (entries_texts k r) (rest_record k r)

theorem readsFirst_of_whole {k : Kind} {before rows : List k.Row} {text : List Char}
    (h : before <+: rows) {footer : Footer}
    (hread : readTrace (some text) = .ok (before.map k.dict, footer)) : ReadsFirst k rows text := by
  refine ⟨_, footer, before.length, hread, ?_⟩
  rw [map_dict, ← List.prefix_iff_eq_take.mp h]

theorem rowsFirst_of_whole {k : Kind} {before rows : List k.Row} {text : List Char}
    (h : before <+: rows) (hread : fusionRows (some text) = before.map k.record) :
    RowsFirst k rows text := by
  refine ⟨before.length, ?_⟩
  rw [hread, map_record, ← List.prefix_iff_eq_take.mp h]

theorem readTrace_header {k : Kind} {part : List Char} (h : part <+: k.header.toList) :
    readTrace (some part) = .ok ([], Dict.empty) := by
  have hpart := piece_header h
  rw [readTrace, universal_eq_self hpart.carriage, fileLines_piece hpart.newline]
  by_cases hne : part = []
  · rw [if_pos hne]
    rfl
  · rw [if_neg hne, List.foldlM_cons, Reading.line]
    simp only [chomp_of_not_mem hpart.newline]
    rw [if_neg hne, if_neg (head?_ne hpart.hash)]
    rfl

theorem fusionRows_header {k : Kind} {part : List Char} (h : part <+: k.header.toList) :
    fusionRows (some part) = [] := by
  have hpart := piece_header h
  rw [fusionRows, universal_eq_self hpart.carriage, fileLines_piece hpart.newline]
  by_cases hne : part = []
  · rw [if_pos hne]
    rfl
  · have hkept : [part].filter (fun l => l.head? ≠ some '#') = [part] := by
      simpa using head?_ne hpart.hash
    rw [if_neg hne, hkept]
    rfl

/-- Whole rows, and a piece that is a whole row or misses a column. -/
theorem first_of_take {k : Kind} {rows : List k.Row} {n : Nat} (h : ¬CutsLast k rows n) :
    ReadsFirst k rows ((k.writtenText rows).take n) ∧
      RowsFirst k rows ((k.writtenText rows).take n) := by
  rcases take_writtenText k rows n with hheader | ⟨before, part, after, rfl, htake, hpart⟩
  · exact ⟨readsFirst_of_whole List.nil_prefix (readTrace_header hheader),
      rowsFirst_of_whole List.nil_prefix (fusionRows_header hheader)⟩
  · rw [htake]
    have hwhole : before <+: before ++ after := List.prefix_append _ _
    by_cases hne : part = []
    · subst hne
      have hempty : Piece [] :=
        ⟨List.not_mem_nil, List.not_mem_nil, List.not_mem_nil⟩
      refine ⟨readsFirst_of_whole hwhole (readTrace_torn k before hempty),
        rowsFirst_of_whole hwhole ?_⟩
      rw [fusionRows_torn k before hempty]
      exact List.append_nil _
    · obtain ⟨r, rest, rfl, hpart, hn⟩ := hpart.resolve_left hne
      have hpiece := piece_joined hpart
      have hread := readTrace_piece k before hpiece hne
      have hrows := fusionRows_piece k before hpiece hne
      rcases piece_cases hpart with hshort | rfl | ⟨p, s, hlast, hs, rfl⟩
      · rw [if_neg hshort.ne] at hread
        rw [if_neg hshort.not_ge, List.append_nil] at hrows
        exact ⟨readsFirst_of_whole hwhole hread, rowsFirst_of_whole hwhole hrows⟩
      · have hmore : before ++ [r] <+: before ++ r :: rest := ⟨rest, by simp⟩
        rw [split_joined, if_pos (length_cells k r)] at hread
        rw [split_joined, if_pos (length_cells k r).ge] at hrows
        have hdicts : (before ++ [r]).map k.dict = before.map k.dict ++ [k.dict r] :=
          List.map_append
        have hrecords : (before ++ [r]).map k.record = before.map k.record ++ [k.record r] :=
          List.map_append
        exact ⟨readsFirst_of_whole hmore (hdicts ▸ hread),
          rowsFirst_of_whole hmore (hrecords ▸ hrows)⟩
      · refine absurd ⟨before, r, rest, p, s, rfl, hlast, hs, ?_⟩ h
        rw [hn, List.length_append, Nat.add_assoc]

/-! ## A row cut in its last column -/

/-- A part of a printed value reads as another value. -/
theorem num_prefix_ne {v : Value} {p s : List Char} (h : text v = p ++ s) (hs : s ≠ []) :
    num p ≠ v := by
  have hne : p ≠ text v := by
    rw [h]
    exact fun heq => hs (List.self_eq_append_right.mp heq)
  intro hnum
  rw [num] at hnum
  cases hint : int p with
  | some i =>
    rw [hint] at hnum
    obtain rfl : Value.int i = v := hnum
    exact int_prefix_ne ⟨s, h.symm⟩ hne hint
  | none =>
    rw [hint] at hnum
    dsimp only at hnum
    split at hnum <;> exact hne (hnum ▸ rfl)

/-- A row that is returned behind whole rows is the next one. -/
theorem eq_of_take {α β γ : Type*} {f : α → γ} {g : β → γ} {xs : List α} {x : α}
    {before after : List β} {r : β} {m : Nat} (hlen : xs.length = before.length)
    (h : (xs ++ [x]).map f = ((before ++ r :: after).take m).map g) : f x = g r := by
  have hat : ((xs ++ [x]).map f)[before.length]? =
      (((before ++ r :: after).take m).map g)[before.length]? := by rw [h]
  rw [List.getElem?_map, List.getElem?_map, ← hlen, List.getElem?_concat_length, hlen,
    List.getElem?_take] at hat
  split at hat
  · rw [List.getElem?_append_right le_rfl, Nat.sub_self] at hat
    exact Option.some.inj hat
  · cases hat

theorem piece_leading {k : Kind} {r : k.Row} {p : List Char} (hp : p <+: k.last r) :
    k.leading r ++ p <+: k.joined r := by
  rw [joined_eq]
  exact List.prefix_append_right_inj _ |>.mpr hp

theorem leading_ne_nil {k : Kind} {r : k.Row} {p : List Char} (hp : p <+: k.last r) :
    k.leading r ++ p ≠ [] := by
  intro hnil
  have hsplit := congrArg List.length (split_leading k r hp)
  have htwo := two_le_columns k
  rw [length_split_leading, hnil] at hsplit
  rw [← hsplit] at htwo
  simp at htwo

/-- A dict of as many cells as there are columns. -/
theorem values_dict {k : Kind} {cells : List (List Char)} (h : cells.length = k.columns.length) :
    (Dict.ofPairs (k.columns.zip (cells.map num))).entries.map Prod.snd = cells.map num := by
  have hlen : (cells.map num).length = k.columns.length := by rw [List.length_map, h]
  have hkeys := @List.map_fst_zip _ _ k.columns (cells.map num) hlen.ge
  rw [Dict.entries_ofPairs (hkeys.symm ▸ nodup_columns k), List.map_snd_zip hlen.le]

theorem values_record {k : Kind} {cells : List (List Char)} (h : cells.length = k.columns.length) :
    (record k.columns cells).fields.entries.map Prod.snd = cells.map some := by
  have hlen : (cells.map some).length = k.columns.length := by rw [List.length_map, h]
  rw [entries_whole h, List.map_snd_zip hlen.le]

/-- The last value of a row, and the values before it. -/
theorem values_items (k : Kind) (r : k.Row) :
    ∃ vs v, (k.items r).map Prod.snd = vs ++ [v] ∧ k.last r = text v := by
  have hne : k.fields r ≠ [] := fun hnil => cells_ne_nil k r (by rw [Kind.cells, hnil]; rfl)
  refine ⟨((k.fields r).dropLast).map Prod.snd, ((k.fields r).getLast hne).2, ?_, ?_⟩
  · rw [Kind.items, List.map_map]
    conv => lhs; rw [← List.dropLast_append_getLast hne]
    rw [List.map_append]
    rfl
  · exact List.getLast_map _

theorem not_readsFirst {k : Kind} (before after : List k.Row) {r : k.Row} {p s : List Char}
    (hlast : k.last r = p ++ s) (hs : s ≠ []) :
    ¬ReadsFirst k (before ++ r :: after) (k.writtenText before ++ (k.leading r ++ p)) := by
  have hp : p <+: k.last r := ⟨s, hlast.symm⟩
  have hlen := length_split_leading k r p
  rintro ⟨read, footer, m, hread, hfirst⟩
  rw [readTrace_piece k before (piece_joined (piece_leading hp)) (leading_ne_nil hp),
    split_leading k r hp, if_pos hlen] at hread
  obtain ⟨rfl, -⟩ := Prod.mk.inj (Except.ok.inj hread)
  have hentries := congrArg (List.map Prod.snd) (eq_of_take (List.length_map _) hfirst)
  obtain ⟨vs, v, hvalues, htext⟩ := values_items k r
  rw [values_dict hlen, hvalues, List.map_append] at hentries
  exact num_prefix_ne (htext ▸ hlast) hs (List.append_singleton_inj.mp hentries).2

theorem not_rowsFirst {k : Kind} (before after : List k.Row) {r : k.Row} {p s : List Char}
    (hlast : k.last r = p ++ s) (hs : s ≠ []) :
    ¬RowsFirst k (before ++ r :: after) (k.writtenText before ++ (k.leading r ++ p)) := by
  have hp : p <+: k.last r := ⟨s, hlast.symm⟩
  have hlen := length_split_leading k r p
  rintro ⟨m, hfirst⟩
  rw [fusionRows_piece k before (piece_joined (piece_leading hp)) (leading_ne_nil hp),
    split_leading k r hp, if_pos hlen.ge] at hfirst
  have hrecord := eq_of_take (List.length_map _) hfirst
  have hentries := (Prod.mk.inj hrecord).1
  have hcells := congrArg (List.map Prod.snd) (hentries.trans (entries_texts k r).symm)
  rw [values_record hlen, Kind.record, values_record (length_cells k r)] at hcells
  have hpieces := List.map_injective_iff.mpr (Option.some_injective _) hcells
  rw [cells_eq k r] at hpieces
  have hcut := (List.append_singleton_inj.mp hpieces).2
  rw [hlast] at hcut
  exact hs (List.self_eq_append_right.mp hcut)

/-- Of the first bytes of a file, each reader returns the first rows as they were
written, unless the bytes end in the last column of a row. -/
theorem torn_iff (k : Kind) (rows : List k.Row) (n : Nat) :
    (ReadsFirst k rows ((k.writtenText rows).take n) ↔ ¬CutsLast k rows n) ∧
      (RowsFirst k rows ((k.writtenText rows).take n) ↔ ¬CutsLast k rows n) := by
  refine ⟨⟨?_, fun h => (first_of_take h).1⟩, ⟨?_, fun h => (first_of_take h).2⟩⟩
  · rintro hreads ⟨before, r, after, p, s, rfl, hlast, hs, rfl⟩
    rw [take_cutsLast k before after hlast] at hreads
    exact not_readsFirst before after hlast hs hreads
  · rintro hrows ⟨before, r, after, p, s, rfl, hlast, hs, rfl⟩
    rw [take_cutsLast k before after hlast] at hrows
    exact not_rowsFirst before after hlast hs hrows

def format12 : SrRow := ⟨⟨1, 2⟩, 3, 4, 5, 6, 12⟩

/-- The row `1,2,3,4,5,6,12` is cut before its `2`, and both readers return it
with `pucch_format` 1. -/
theorem torn_format12 :
    ¬ReadsFirst .sr [format12] ((Kind.sr.writtenText [format12]).take 65) ∧
      ¬RowsFirst .sr [format12] ((Kind.sr.writtenText [format12]).take 65) := by
  have hlast : Kind.sr.last format12 = ['1'] ++ ['2'] := by decide +kernel
  have hcut : (Kind.sr.writtenText []).length + (Kind.sr.leading format12).length +
      ['1'].length = 65 := by decide +kernel
  have htake := take_cutsLast .sr [] [] hlast
  rw [hcut, List.nil_append] at htake
  rw [htake]
  have hone := not_readsFirst (k := .sr) [] [] hlast (List.cons_ne_nil _ _)
  have hother := not_rowsFirst (k := .sr) [] [] hlast (List.cons_ne_nil _ _)
  exact ⟨hone, hother⟩

end Trace
end P5G
