import P5G.Trace.Kinds
import P5G.Trace.GnbTracer

/-!
# Reading a trace file back

A file that a ring has finished is its header, its rows and its footer.  Every
printed value reads as itself and holds no character that separates, so
`read_trace` returns the rows as they were.
-/

namespace P5G
namespace Trace

open Numeral TraceIo Lines

/-! ## Printed values -/

/-- Nothing that separates fields or lines, marks a footer or quotes. -/
def Clean (s : List Char) : Prop := ∀ c ∈ s, c ∉ [',', '\n', '\r', '#', '"']

theorem clean_of_all {s : List Char}
    (h : (s.all fun c => c ∉ [',', '\n', '\r', '#', '"']) = true) : Clean s := by
  intro c hc
  exact of_decide_eq_true (List.all_eq_true.mp h c hc)

theorem Clean.append {s t : List Char} (hs : Clean s) (ht : Clean t) : Clean (s ++ t) := by
  intro c hc
  rcases List.mem_append.mp hc with hc | hc
  · exact hs c hc
  · exact ht c hc

theorem Clean.cons {c : Char} {s : List Char} (hc : c ∉ [',', '\n', '\r', '#', '"'])
    (hs : Clean s) : Clean (c :: s) := by
  intro d hd
  rcases List.mem_cons.mp hd with rfl | hd
  · exact hc
  · exact hs d hd

theorem clean_of_isDigit {s : List Char} (h : ∀ c ∈ s, c.isDigit = true) : Clean s := by
  intro c hc hsep
  have hdigit := h c hc
  simp only [List.mem_cons, List.not_mem_nil, or_false] at hsep
  rcases hsep with rfl | rfl | rfl | rfl | rfl <;> exact absurd hdigit (by decide)

theorem clean_decimal (i : Int) : Clean (decimal i) := by
  cases i with
  | ofNat n => exact clean_of_isDigit fun _ => isDigit_toDigits
  | negSucc n => exact .cons (by decide) (clean_of_isDigit fun _ => isDigit_toDigits)

theorem isDigit_decimal (n : Nat) : ∀ c ∈ decimal (n : Int), c.isDigit = true :=
  fun _ => isDigit_toDigits

/-- A value that reads as itself, and whose text separates nothing. -/
structure Printed (v : Value) : Prop where
  reads : num (text v) = v
  clean : Clean (text v)

theorem printed_int (i : Int) : Printed (.int i) := by
  refine ⟨?_, clean_decimal i⟩
  show num (decimal i) = .int i
  rw [num, int_decimal]

/-- A text that is no number reads as itself. -/
theorem num_str {s : List Char} (hint : int s = none) (hfloat : isFloat s = false) :
    num s = .str s := by
  rw [num, hint]
  simp [hfloat]

theorem printed_word {s : List Char} (hword : isWord s = true) (hclean : Clean s) :
    Printed (.str s) := by
  obtain ⟨hint, hfloat⟩ := not_number_of_isWord hword
  exact ⟨num_str hint hfloat, hclean⟩

theorem printed_dirName (dir : UInt8) : Printed (.str (dirName dir)) := by
  rw [dirName]
  split <;> exact printed_word (by decide) (clean_of_all (by decide))

theorem printed_rlcEventName (event : UInt32) : Printed (.str (rlcEventName event)) := by
  have hname : rlcEventNames[event.toNat]?.getD "unknown" ∈ "unknown" :: rlcEventNames := by
    cases h : rlcEventNames[event.toNat]? with
    | none => exact List.mem_cons_self
    | some name => exact List.mem_cons_of_mem _ (List.mem_of_getElem? h)
  have hall : ("unknown" :: rlcEventNames).all (fun name => isWord name.toList &&
      name.toList.all fun c => c ∉ [',', '\n', '\r', '#', '"']) = true := by decide +kernel
  obtain ⟨hword, hclean⟩ := Bool.and_eq_true_iff.mp (List.all_eq_true.mp hall _ hname)
  exact printed_word hword (clean_of_all hclean)

theorem foreign_point : Foreign '.' := ⟨by decide, by decide, by decide, by decide⟩

theorem foreign_slash : Foreign '/' := ⟨by decide, by decide, by decide, by decide⟩

theorem printed_dotted (ip : UInt32) : Printed (.str (dotted ip)) := by
  have hchars : ∀ c ∈ dotted ip, c.isDigit = true ∨ c = '.' := by
    intro c hc
    rw [dotted_eq] at hc
    simp only [List.mem_append, List.mem_cons] at hc
    rcases hc with hc | rfl | hc | rfl | hc | rfl | hc <;>
      first | exact .inl (isDigit_decimal _ c hc) | exact .inr rfl
  have hpoint : '.' ∈ dotted ip := by
    rw [dotted_eq]
    simp
  have hsplit : 2 < ((dotted ip).splitOn '.').length := by
    rw [dotted, List.splitOn_intercalate]
    · simp
    · intro l hl hmem
      obtain ⟨b, -, rfl⟩ := List.mem_map.mp hl
      exact absurd (isDigit_decimal b _ hmem) (by decide)
    · simp
  refine ⟨num_str (int_none hpoint foreign_point) (isFloat_of_points hsplit hchars), ?_⟩
  intro c hc hsep
  rcases hchars c hc with hdigit | rfl
  · exact clean_of_isDigit (s := [c]) (by simpa using hdigit) c List.mem_cons_self hsep
  · exact absurd hsep (by decide)

theorem clean_partText (p : UInt8 × UInt8) : Clean (partText p) :=
  (clean_decimal _).append (.cons (by decide) (clean_decimal _))

theorem clean_partsText (r : RtcpPacketRow) : Clean (partsText r) := by
  rw [partsText]
  generalize rtcpParts r = parts
  cases parts with
  | nil => exact fun c hc => absurd hc List.not_mem_nil
  | cons p parts =>
    rw [List.map_cons, intercalate_cons_flatMap]
    refine (clean_partText p).append fun c hc => ?_
    obtain ⟨part, hpart, hc⟩ := List.mem_flatMap.mp hc
    obtain ⟨q, -, rfl⟩ := List.mem_map.mp hpart
    exact Clean.cons (by decide) (clean_partText q) c hc

/-- An empty part list is an empty cell, and any other has a slash in it. -/
theorem printed_partsText (r : RtcpPacketRow) : Printed (.str (partsText r)) := by
  refine ⟨?_, clean_partsText r⟩
  show num (partsText r) = .str (partsText r)
  by_cases hnil : rtcpParts r = []
  · rw [partsText, hnil]
    decide
  · have hslash : '/' ∈ partsText r := by
      obtain ⟨p, parts, hcons⟩ := List.exists_cons_of_ne_nil hnil
      rw [partsText, hcons, List.map_cons, intercalate_cons_flatMap, partText]
      simp
    exact num_str (int_none hslash foreign_slash)
      (isFloat_false hslash foreign_slash (by decide) (by decide))

theorem printed_fields (k : Kind) (r : k.Row) : ∀ f ∈ k.fields r, Printed f.2 := by
  cases k <;>
    simp [Kind.fields, captureFrameFields, decodedFrameFields, encodedFrameFields,
      rtpPacketFields, rtcpPacketFields, decodedFrameLedgerFields, stampFields, bsrFields,
      srFields, csiFields, macUlPduFields, rlcUlFields, pdcpSduFields, printed_int,
      printed_dirName, printed_rlcEventName, printed_dotted]
  exact printed_partsText _

def joined (cells : List (List Char)) : List Char := [','].intercalate cells

section

variable {columns cells : List (List Char)}

theorem splitOn_joined (hclean : ∀ cell ∈ cells, Clean cell) (htwo : 2 ≤ cells.length) :
    (joined cells).splitOn ',' = cells := by
  refine List.splitOn_intercalate _ (fun cell hcell hcomma => ?_) (List.ne_nil_of_length_pos
    (by omega))
  exact hclean cell hcell ',' hcomma List.mem_cons_self

theorem not_mem_joined_cells (hclean : ∀ cell ∈ cells, Clean cell) {c : Char}
    (hc : c ∈ ['\n', '\r', '#', '"']) : c ∉ joined cells := by
  intro hmem
  rcases mem_intercalate hmem with rfl | ⟨cell, hcell, hin⟩
  · exact absurd hc (by decide)
  · exact hclean cell hcell c hin (List.mem_cons_of_mem _ hc)

theorem joined_ne_nil_of_two (hclean : ∀ cell ∈ cells, Clean cell) (htwo : 2 ≤ cells.length) :
    joined cells ≠ [] := by
  intro hnil
  have hsplit := splitOn_joined hclean htwo
  rw [hnil] at hsplit
  rw [← hsplit] at htwo
  simp at htwo

theorem head?_ne {line : List Char} {c : Char} (h : c ∉ line) : line.head? ≠ some c :=
  fun hhead => h (List.mem_of_mem_head? hhead)

def readRow (columns cells : List (List Char)) : Dict (List Char) Value :=
  Dict.ofPairs (columns.zip (cells.map num))

theorem line_columns (hclean : ∀ cell ∈ cells, Clean cell) (htwo : 2 ≤ cells.length) :
    Reading.init.line (joined cells ++ ['\n']) = .ok ⟨some cells, [], Dict.empty⟩ := by
  rw [Reading.line]
  simp only [chomp_newline (not_mem_joined_cells hclean (c := '\n') (by decide))]
  rw [if_neg (joined_ne_nil_of_two hclean htwo),
    if_neg (head?_ne (not_mem_joined_cells hclean (by decide))), splitOn_joined hclean htwo]
  rfl

theorem line_cells (hclean : ∀ cell ∈ cells, Clean cell) (htwo : 2 ≤ cells.length)
    (hlen : cells.length = columns.length) (rows : List (Dict (List Char) Value))
    (footer : Footer) : Reading.line ⟨some columns, rows, footer⟩ (joined cells ++ ['\n']) =
      .ok ⟨some columns, rows ++ [readRow columns cells], footer⟩ := by
  rw [Reading.line]
  simp only [chomp_newline (not_mem_joined_cells hclean (c := '\n') (by decide)),
    splitOn_joined hclean htwo]
  rw [if_neg (joined_ne_nil_of_two hclean htwo),
    if_neg (head?_ne (not_mem_joined_cells hclean (by decide))), if_neg (not_not.mpr hlen)]
  rfl

/-- A line for each row. -/
theorem lines_cells {written : List (List (List Char))} (htwo : 2 ≤ columns.length)
    (h : ∀ cells ∈ written, cells.length = columns.length ∧ ∀ cell ∈ cells, Clean cell)
    (rows : List (Dict (List Char) Value)) (footer : Footer) :
    ((written.map joined).map (· ++ ['\n'])).foldlM Reading.line ⟨some columns, rows, footer⟩ =
      .ok ⟨some columns, rows ++ written.map (readRow columns), footer⟩ := by
  induction written generalizing rows with
  | nil => rw [List.map_nil, List.map_nil, List.map_nil, List.append_nil]; rfl
  | cons cells written ih =>
    obtain ⟨⟨hlen, hclean⟩, hrest⟩ := List.forall_mem_cons.mp h
    rw [List.map_cons, List.map_cons, List.foldlM_cons, line_cells hclean (hlen ▸ htwo) hlen]
    show List.foldlM Reading.line _ _ = _
    rw [ih hrest, List.map_cons, List.append_assoc]
    rfl

end

/-- What the columns of a row are to hold. -/
def Kind.items (k : Kind) (r : k.Row) : List (List Char × Value) :=
  (k.fields r).map fun f => (f.1.toList, f.2)

def Kind.joined (k : Kind) (r : k.Row) : List Char := [','].intercalate (k.cells r)

theorem clean_cells (k : Kind) (r : k.Row) : ∀ cell ∈ k.cells r, Clean cell := by
  intro cell hcell
  obtain ⟨f, hf, rfl⟩ := List.mem_map.mp hcell
  exact (printed_fields k r f hf).clean

theorem length_cells (k : Kind) (r : k.Row) : (k.cells r).length = k.columns.length := by
  rw [← names_eq k r, Kind.cells, List.length_map, List.length_map]

theorem cells_ne_nil (k : Kind) (r : k.Row) : k.cells r ≠ [] := by
  intro hnil
  have hlen := length_cells k r
  have htwo := two_le_columns k
  rw [hnil, List.length_nil] at hlen
  omega

theorem format_joined (k : Kind) (r : k.Row) : k.format r = k.joined r ++ ['\n'] := by
  rw [format_eq, csvLine_eq (cells_ne_nil k r)]
  rfl

theorem two_le_cells (k : Kind) (r : k.Row) : 2 ≤ (k.cells r).length :=
  length_cells k r ▸ two_le_columns k

theorem split_joined (k : Kind) (r : k.Row) : (k.joined r).splitOn ',' = k.cells r :=
  splitOn_joined (clean_cells k r) (two_le_cells k r)

/-- A line of a row holds commas and nothing else that separates. -/
theorem not_mem_joined (k : Kind) (r : k.Row) {c : Char} (hc : c ∈ ['\n', '\r', '#', '"']) :
    c ∉ k.joined r := not_mem_joined_cells (clean_cells k r) hc

theorem joined_ne_nil (k : Kind) (r : k.Row) : k.joined r ≠ [] :=
  joined_ne_nil_of_two (clean_cells k r) (two_le_cells k r)

def Kind.dict (k : Kind) (r : k.Row) : Dict (List Char) Value :=
  Dict.ofPairs (k.columns.zip ((k.cells r).map num))

theorem entries_dict (k : Kind) (r : k.Row) : (k.dict r).entries = k.items r := by
  have hcells : (k.cells r).map num = (k.fields r).map Prod.snd := by
    rw [Kind.cells, List.map_map]
    exact List.map_congr_left fun f hf => (printed_fields k r f hf).reads
  have hitems : k.columns.zip ((k.cells r).map num) = k.items r := by
    rw [hcells, ← names_eq k r, List.zip_map']
    rfl
  have hkeys : (k.items r).map Prod.fst = k.columns := by
    rw [← names_eq k r, Kind.items, List.map_map]
    rfl
  rw [Kind.dict, hitems]
  exact Dict.entries_ofPairs (hkeys ▸ nodup_columns k)

theorem clean_columns (k : Kind) : ∀ name ∈ k.columns, Clean name :=
  fun name hname _ hin hc => not_mem_columns k hc name hname hin

theorem not_mem_header (k : Kind) {c : Char} (hc : c ∈ ['\n', '\r', '#', '"']) :
    c ∉ k.header.toList := by
  rw [header_joined]
  exact not_mem_joined_cells (clean_columns k) hc

theorem header_ne_nil (k : Kind) : k.header.toList ≠ [] := by
  rw [header_joined]
  exact joined_ne_nil_of_two (clean_columns k) (two_le_columns k)

def footerPairs (counts : List (String × Nat)) (clockDomain : Option String) :
    List (List Char × List Char) :=
  counts.map (fun e => (e.1.toList, decimal e.2)) ++
    clockDomain.toList.map fun d => ("clock_domain".toList, d.toList)

def token (p : List Char × List Char) : List Char := p.1 ++ '=' :: p.2

def Kind.content (k : Kind) : TraceLine k.Row → List Char
  | .header h => h.toList
  | .row r => k.joined r
  | .footer counts clockDomain =>
    '#' :: ((footerPairs counts clockDomain).map token).flatMap fun tok => ' ' :: tok

/-- The bytes that a ring writes for a line. -/
def Kind.lineText (k : Kind) : TraceLine k.Row → List Char
  | .header h => Printf.printf "%s\n" [.str h.toList]
  | .row r => k.format r
  | .footer counts clockDomain => k.content (.footer counts clockDomain) ++ ['\n']

def Kind.fileText (k : Kind) (file : List (TraceLine k.Row)) : List Char :=
  file.flatMap k.lineText

/-- The footer of the ffmpeg tree's ring, as the source prints it. -/
theorem lineText_rows (k : Kind) (written : Nat) (bootId : String) :
    k.lineText (.footer [("rows", written)] (some bootId)) =
      Printf.printf "# rows=%zu clock_domain=%s\n" [.size written, .str bootId.toList] := by
  simp [Kind.lineText, Kind.content, footerPairs, token, Printf.printf, Printf.directives,
    Printf.render]

theorem lineText_overflow (k : Kind) (ov lt unpub : Nat) :
    k.lineText (.footer [("overflow", ov), ("late", lt), ("unpublished", unpub)] none) =
      Printf.printf "# overflow=%zu late=%zu unpublished=%zu\n"
        [.size ov, .size lt, .size unpub] := by
  simp [Kind.lineText, Kind.content, footerPairs, token, Printf.printf, Printf.directives,
    Printf.render]

/-- The footer of the gNB tracer's ring. -/
theorem lineText_gnb (k : Kind) (written ov : Nat) (bootId : String) :
    k.lineText (.footer [("rows", written), ("overflow", ov)] (some bootId)) =
      Printf.printf "# rows=%zu overflow=%zu clock_domain=%s\n"
        [.size written, .size ov, .str bootId.toList] := by
  simp [Kind.lineText, Kind.content, footerPairs, token, Printf.printf, Printf.directives,
    Printf.render]

theorem lineText_eq (k : Kind) (l : TraceLine k.Row) : k.lineText l = k.content l ++ ['\n'] := by
  cases l with
  | header h => simp [Kind.lineText, Kind.content, Printf.printf, Printf.directives, Printf.render]
  | row r => exact format_joined k r
  | footer counts clockDomain => rfl

theorem line_header (k : Kind) : Reading.init.line (k.header.toList ++ ['\n']) =
    .ok ⟨some k.columns, [], Dict.empty⟩ := by
  rw [header_joined]
  exact line_columns (clean_columns k) (two_le_columns k)

theorem lines_rows (k : Kind) (written : List k.Row) (rows : List (Dict (List Char) Value))
    (footer : Footer) :
    (written.map k.format).foldlM Reading.line ⟨some k.columns, rows, footer⟩ =
      .ok ⟨some k.columns, rows ++ written.map k.dict, footer⟩ := by
  have hformat : written.map k.format = ((written.map k.cells).map joined).map (· ++ ['\n']) := by
    rw [List.map_map, List.map_map]
    exact List.map_congr_left fun r _ => format_joined k r
  have hcells : ∀ cells ∈ written.map k.cells,
      cells.length = k.columns.length ∧ ∀ cell ∈ cells, Clean cell := by
    intro cells hmem
    obtain ⟨r, -, rfl⟩ := List.mem_map.mp hmem
    exact ⟨length_cells k r, clean_cells k r⟩
  rw [hformat, lines_cells (two_le_columns k) hcells, List.map_map]
  rfl

/-- The header and the rows. -/
theorem lines_body (k : Kind) (written : List k.Row) :
    ((k.header.toList ++ ['\n']) :: written.map k.format).foldlM Reading.line Reading.init =
      .ok ⟨some k.columns, written.map k.dict, Dict.empty⟩ := by
  rw [List.foldlM_cons, line_header]
  exact lines_rows k written [] Dict.empty

theorem line_footer (r : Reading) {toks : List (List Char)}
    (h : ∀ tok ∈ toks, tok ≠ [] ∧ ∀ c ∈ tok, isSpace c = false) :
    r.line ('#' :: (toks.flatMap fun tok => ' ' :: tok) ++ ['\n']) =
      .ok { r with footer := toks.foldl addToken r.footer } := by
  have hnewline : '\n' ∉ '#' :: toks.flatMap fun tok => ' ' :: tok := by
    intro hmem
    rcases List.mem_cons.mp hmem with heq | hmem
    · exact absurd heq (by decide)
    · obtain ⟨tok, htok, hc⟩ := List.mem_flatMap.mp hmem
      rcases List.mem_cons.mp hc with heq | hc
      · exact absurd heq (by decide)
      · exact absurd ((h tok htok).2 '\n' hc) (by decide)
  have hwords : words (toks.flatMap fun tok => ' ' :: tok) = toks := by
    rw [words, splitOnP_words (by decide) (fun tok htok => (h tok htok).2)]
    rw [List.filter_cons_of_neg (by simp), List.filter_eq_self]
    exact fun tok htok => by simpa using (h tok htok).1
  rw [Reading.line]
  simp only [chomp_newline hnewline]
  rw [if_neg (List.cons_ne_nil _ _), if_pos List.head?_cons, List.drop_one, List.tail_cons, hwords]

/-! ## A whole file -/

/-- What the kernel gives as its boot id: one word. -/
structure BootId where
  text : String
  word : ∀ c ∈ text.toList, isSpace c = false

def Kind.isGnb : Kind → Bool
  | .bsr | .sr | .csi | .macUlPdu | .rlcUl | .pdcpSdu => true
  | _ => false

def Kind.footer (k : Kind) (bootId : BootId) (written ov lt unpub : Nat) :
    List (TraceLine k.Row) :=
  if k.isGnb then [.footer [("rows", written), ("overflow", ov)] (some bootId.text)]
  else TraceRing.State.footer bootId.text written ov lt unpub

/-- A key and a value that make one word, the key without an equals sign. -/
structure IsToken (p : List Char × List Char) : Prop where
  word : ∀ c ∈ token p, isSpace c = false
  key : '=' ∉ p.1

theorem addToken_token {key : List Char} (hkey : '=' ∉ key) (value : List Char)
    (footer : Footer) : addToken footer (token (key, value)) = footer.set key (.text value) := by
  have hmem : '=' ∈ token (key, value) := by simp [token]
  have htake : (token (key, value)).takeWhile (· ≠ '=') = key := by
    rw [token, List.takeWhile_append_of_pos]
    · simp
    · intro c hc
      simp
      rintro rfl
      exact hkey hc
  have hdrop : (token (key, value)).dropWhile (· ≠ '=') = '=' :: value := by
    rw [token, List.dropWhile_append_of_pos]
    · simp
    · intro c hc
      simp
      rintro rfl
      exact hkey hc
  rw [addToken, if_pos hmem, htake, hdrop]
  rfl

theorem foldl_addToken {pairs : List (List Char × List Char)} (h : ∀ p ∈ pairs, IsToken p)
    (footer : Footer) : (pairs.map token).foldl addToken footer =
      pairs.foldl (fun footer p => footer.set p.1 (.text p.2)) footer := by
  induction pairs generalizing footer with
  | nil => rfl
  | cons p pairs ih =>
    rw [List.map_cons, List.foldl_cons, List.foldl_cons,
      addToken_token (h p List.mem_cons_self).key p.2]
    exact ih (fun q hq => h q (List.mem_cons_of_mem _ hq)) _

theorem get?_foldl_set {pairs : List (List Char × List Char)} {key : List Char}
    (h : key ∉ pairs.map Prod.fst) (footer : Footer) :
    (pairs.foldl (fun footer p => footer.set p.1 (.text p.2)) footer).get? key =
      footer.get? key := by
  induction pairs generalizing footer with
  | nil => rfl
  | cons p pairs ih =>
    rw [List.map_cons, List.mem_cons, not_or] at h
    rw [List.foldl_cons, ih h.2, Dict.get?_set_ne h.1]

def isKey (key : List Char) : Bool := key.all fun c => !isSpace c && c ≠ '='

theorem isToken_of_word {key value : List Char} (hkey : isKey key = true)
    (hvalue : ∀ c ∈ value, isSpace c = false) : IsToken (key, value) := by
  have hall (c : Char) (hc : c ∈ key) : isSpace c = false ∧ c ≠ '=' := by
    have := List.all_eq_true.mp hkey c hc
    simpa using this
  refine ⟨fun c hc => ?_, fun hmem => (hall '=' hmem).2 rfl⟩
  rcases List.mem_append.mp hc with hc | hc
  · exact (hall c hc).1
  · rcases List.mem_cons.mp hc with rfl | hc
    · rfl
    · exact hvalue c hc

theorem isToken_footerPairs {counts : List (String × Nat)} {clockDomain : Option String}
    (hcounts : ((counts.map Prod.fst).all fun name => isKey name.toList) = true)
    (hdomain : ∀ d ∈ clockDomain, ∀ c ∈ d.toList, isSpace c = false) :
    ∀ p ∈ footerPairs counts clockDomain, IsToken p := by
  intro p hp
  rcases List.mem_append.mp hp with hp | hp
  · obtain ⟨e, he, rfl⟩ := List.mem_map.mp hp
    have hkey := List.all_eq_true.mp hcounts e.1 (List.mem_map_of_mem he)
    refine isToken_of_word hkey fun c hc => ?_
    exact isSpace_of_isDigit (isDigit_decimal e.2 c hc)
  · obtain ⟨d, hd, rfl⟩ := List.mem_map.mp hp
    exact isToken_of_word (by decide) (hdomain d (Option.mem_toList.mp hd))

/-- A footer line sets its keys. -/
theorem line_footerPairs (k : Kind) (r : Reading) {counts : List (String × Nat)}
    {clockDomain : Option String}
    (hcounts : ((counts.map Prod.fst).all fun name => isKey name.toList) = true)
    (hdomain : ∀ d ∈ clockDomain, ∀ c ∈ d.toList, isSpace c = false) :
    r.line (k.lineText (.footer counts clockDomain)) = .ok { r with
      footer := (footerPairs counts clockDomain).foldl
        (fun footer p => footer.set p.1 (.text p.2)) r.footer } := by
  have htoken := isToken_footerPairs hcounts hdomain
  rw [Kind.lineText, Kind.content, line_footer, foldl_addToken htoken]
  intro tok htok
  obtain ⟨p, hp, rfl⟩ := List.mem_map.mp htok
  exact ⟨by simp [token], (htoken p hp).word⟩

theorem lines_footers (k : Kind) (r : Reading) (lines : List (List (String × Nat) × Option String))
    (hcounts : ((lines.flatMap fun l => l.1.map Prod.fst).all fun name => isKey name.toList) = true)
    (hdomain : ∀ l ∈ lines, ∀ d ∈ l.2, ∀ c ∈ d.toList, isSpace c = false) :
    (lines.map fun l => k.lineText (.footer l.1 l.2)).foldlM Reading.line r = .ok { r with
      footer := (lines.flatMap fun l => footerPairs l.1 l.2).foldl
        (fun footer p => footer.set p.1 (.text p.2)) r.footer } := by
  induction lines generalizing r with
  | nil => rfl
  | cons l lines ih =>
    rw [List.flatMap_cons, List.all_append, Bool.and_eq_true] at hcounts
    have hl := line_footerPairs k r hcounts.1 (hdomain l List.mem_cons_self)
    rw [List.map_cons, List.foldlM_cons, hl, List.flatMap_cons, List.foldl_append]
    exact ih _ hcounts.2 fun m hm => hdomain m (List.mem_cons_of_mem _ hm)

def Kind.footerLines (k : Kind) (bootId : BootId) (written ov lt unpub : Nat) :
    List (List (String × Nat) × Option String) :=
  if k.isGnb then [([("rows", written), ("overflow", ov)], some bootId.text)]
  else if ov ≠ 0 ∨ lt ≠ 0 ∨ unpub ≠ 0 then
    [([("rows", written)], some bootId.text),
      ([("overflow", ov), ("late", lt), ("unpublished", unpub)], none)]
  else [([("rows", written)], some bootId.text)]

theorem footer_eq (k : Kind) (bootId : BootId) (written ov lt unpub : Nat) :
    k.footer bootId written ov lt unpub =
      (k.footerLines bootId written ov lt unpub).map fun l => .footer l.1 l.2 := by
  unfold Kind.footer Kind.footerLines TraceRing.State.footer
  split
  · rfl
  · split <;> rfl

theorem isKey_footerLines (k : Kind) (bootId : BootId) (written ov lt unpub : Nat) :
    ((k.footerLines bootId written ov lt unpub).flatMap fun l => l.1.map Prod.fst).all
      (fun name => isKey name.toList) = true := by
  unfold Kind.footerLines
  split
  · show ["rows", "overflow"].all (fun name => isKey name.toList) = true
    decide
  · split
    · show ["rows", "overflow", "late", "unpublished"].all (fun name => isKey name.toList) = true
      decide
    · show ["rows"].all (fun name => isKey name.toList) = true
      decide

theorem word_footerLines (k : Kind) (bootId : BootId) (written ov lt unpub : Nat) :
    ∀ l ∈ k.footerLines bootId written ov lt unpub, ∀ d ∈ l.2, ∀ c ∈ d.toList,
      isSpace c = false := by
  have hword := bootId.word
  unfold Kind.footerLines
  split
  · simpa using hword
  · split <;> simpa using hword

/-- A footer counts the rows first, and no later key is that one or the count of
malformed rows. -/
theorem pairs_footerLines (k : Kind) (bootId : BootId) (written ov lt unpub : Nat) :
    ∃ others, (k.footerLines bootId written ov lt unpub).flatMap
      (fun l => footerPairs l.1 l.2) = ("rows".toList, decimal written) :: others ∧
      ∀ key ∈ others.map Prod.fst, key ∈ ["overflow".toList, "clock_domain".toList,
        "late".toList, "unpublished".toList] := by
  unfold Kind.footerLines
  split
  · exact ⟨_, rfl, by simp⟩
  · split
    · exact ⟨_, rfl, by simp [footerPairs]⟩
    · exact ⟨_, rfl, by simp⟩

/-- What a footer leaves in the footer dict. -/
theorem lines_footer (k : Kind) (bootId : BootId) (written ov lt unpub : Nat)
    (rows : List (Dict (List Char) Value)) : ∃ footer : Footer,
      ((k.footer bootId written ov lt unpub).map k.lineText).foldlM Reading.line
        ⟨some k.columns, rows, Dict.empty⟩ = .ok ⟨some k.columns, rows, footer⟩ ∧
      footer.get? malformedRows = none ∧
      footer.get? "rows".toList = some (.text (decimal written)) := by
  have hread := lines_footers k ⟨some k.columns, rows, Dict.empty⟩ _
    (isKey_footerLines k bootId written ov lt unpub) (word_footerLines k bootId written ov lt unpub)
  obtain ⟨others, hothers, hkeys⟩ := pairs_footerLines k bootId written ov lt unpub
  have hmalformed : malformedRows ∉ others.map Prod.fst := fun hmem =>
    absurd (hkeys _ hmem) (by decide)
  have hrows : "rows".toList ∉ others.map Prod.fst := fun hmem =>
    absurd (hkeys _ hmem) (by decide)
  have hne : malformedRows ≠ "rows".toList := by decide
  rw [footer_eq, List.map_map]
  refine ⟨_, hread, ?_⟩
  dsimp only
  rw [hothers, List.foldl_cons, get?_foldl_set hmalformed, get?_foldl_set hrows,
    Dict.get?_set_self, Dict.get?_set_ne hne]
  exact ⟨rfl, rfl⟩

/-- No newline stands inside a line of a footer. -/
theorem footer_content (k : Kind) (bootId : BootId) (written ov lt unpub : Nat) :
    ∀ l ∈ k.footer bootId written ov lt unpub, '\n' ∉ k.content l ∧ '\r' ∉ k.content l := by
  have hnames := isKey_footerLines k bootId written ov lt unpub
  rw [footer_eq]
  intro l hl
  obtain ⟨line, hline, rfl⟩ := List.mem_map.mp hl
  have hcounts : ((line.1.map Prod.fst).all fun name => isKey name.toList) = true := by
    refine List.all_eq_true.mpr fun name hname => ?_
    exact List.all_eq_true.mp hnames name (List.mem_flatMap.mpr ⟨line, hline, hname⟩)
  have htoken := isToken_footerPairs hcounts (word_footerLines k bootId written ov lt unpub _ hline)
  have hnot (c : Char) (hspace : isSpace c = true) (hc : c ∉ ['#', ' ']) :
      c ∉ k.content (.footer line.1 line.2) := by
    intro hmem
    rcases List.mem_cons.mp hmem with rfl | hmem
    · exact hc List.mem_cons_self
    · obtain ⟨tok, htok, hmem⟩ := List.mem_flatMap.mp hmem
      obtain ⟨p, hp, rfl⟩ := List.mem_map.mp htok
      rcases List.mem_cons.mp hmem with rfl | hmem
      · exact hc (by decide)
      · rw [(htoken p hp).word c hmem] at hspace
        cases hspace
  exact ⟨hnot '\n' (by decide) (by decide), hnot '\r' (by decide) (by decide)⟩

/-- Lines are read as they were written. -/
theorem fileLines_fileText (k : Kind) {file : List (TraceLine k.Row)}
    (h : ∀ l ∈ file, '\n' ∉ k.content l ∧ '\r' ∉ k.content l) :
    fileLines (universal false (k.fileText file)) = file.map k.lineText := by
  have htext : k.fileText file = ((file.map k.content).map (· ++ ['\n'])).flatten := by
    rw [Kind.fileText, List.flatMap_def, List.map_map]
    exact congrArg List.flatten (List.map_congr_left fun l _ => lineText_eq k l)
  have hreturn : '\r' ∉ k.fileText file := by
    intro hmem
    obtain ⟨l, hl, hc⟩ := List.mem_flatMap.mp hmem
    rw [lineText_eq, List.mem_append] at hc
    rcases hc with hc | hc
    · exact (h l hl).2 hc
    · exact absurd hc (by decide)
  have hcontent : ∀ l ∈ file.map k.content, '\n' ∉ l := by
    intro l hl
    obtain ⟨line, hline, rfl⟩ := List.mem_map.mp hl
    exact (h line hline).1
  have hlines := fileLines_flatten hcontent []
  rw [universal_eq_self hreturn, htext]
  rw [List.append_nil] at hlines
  rw [hlines, List.map_map]
  show _ ++ [] = _
  rw [List.append_nil]
  exact List.map_congr_left fun l _ => (lineText_eq k l).symm

/-- A finished file reads as its rows, and its footer counts them. -/
theorem read_back (k : Kind) (rows : List k.Row) (bootId : BootId) (ov lt unpub : Nat) :
    ∃ read footer,
      readTrace (some (k.fileText (.header k.header :: rows.map .row ++
        k.footer bootId rows.length ov lt unpub))) = .ok (read, footer) ∧
      read.map Dict.entries = rows.map k.items ∧
      footer.get? malformedRows = none ∧
      footer.get? "rows".toList = some (.text (decimal rows.length)) := by
  obtain ⟨footer, hfooter, hmalformed, hrows⟩ :=
    lines_footer k bootId rows.length ov lt unpub (rows.map k.dict)
  have hclean : ∀ l ∈ TraceLine.header k.header :: rows.map TraceLine.row ++
      k.footer bootId rows.length ov lt unpub, '\n' ∉ k.content l ∧ '\r' ∉ k.content l := by
    intro l hl
    rcases List.mem_append.mp hl with hl | hl
    · rcases List.mem_cons.mp hl with rfl | hl
      · exact ⟨not_mem_header k (by decide), not_mem_header k (by decide)⟩
      · obtain ⟨r, -, rfl⟩ := List.mem_map.mp hl
        exact ⟨not_mem_joined k r (by decide), not_mem_joined k r (by decide)⟩
    · exact footer_content k bootId rows.length ov lt unpub l hl
  have hrowLines : (rows.map TraceLine.row).map k.lineText = rows.map k.format := by
    rw [List.map_map]
    rfl
  refine ⟨rows.map k.dict, footer, ?_, ?_, hmalformed, hrows⟩
  · rw [readTrace, fileLines_fileText k hclean, List.map_append, List.map_cons, hrowLines,
      List.foldlM_append, lineText_eq]
    show Except.map _ (List.foldlM _ _ ((k.header.toList ++ ['\n']) :: _) >>= _) = _
    rw [lines_body]
    show Except.map _ (List.foldlM _ _ _) = _
    rw [hfooter]
    rfl
  · rw [List.map_map]
    exact List.map_congr_left fun r _ => entries_dict k r

end Trace
end P5G
