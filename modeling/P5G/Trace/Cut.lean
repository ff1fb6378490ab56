import P5G.Trace.Torn

/-!
# A finished trace file, cut anywhere

Files of any columns: a header, rows of as many cells, and the footer of a ring
that has lost nothing.  `readTrace_cut` says what `read_trace` makes of the first
bytes of one, wherever they end.
-/

namespace P5G
namespace Trace

open Numeral TraceIo Lines

/-- The names of the columns, and rows of as many cells. -/
structure Table where
  columns : List (List Char)
  rows : List (List (List Char))
  two_le : 2 ≤ columns.length
  shape : ∀ cells ∈ columns :: rows, cells.length = columns.length ∧ ∀ cell ∈ cells, Clean cell

/-- The cells before the last, each with its comma. -/
def leading (cells : List (List Char)) : List Char :=
  cells.dropLast.flatMap fun cell => cell ++ [',']

def block (contents : List (List Char)) : List Char := (contents.map (· ++ ['\n'])).flatten

def Table.body (t : Table) : List Char := block ((t.columns :: t.rows).map joined)

/-- The first `length` bytes of what a ring writes when nothing was lost; it writes the
header line before all else. -/
structure Cut where
  table : Table
  gnb : Bool
  bootId : BootId
  length : Nat
  header : (block [joined table.columns]).length ≤ length

namespace Cut

variable (f : Cut)

def rowsToken : List Char := token ("rows".toList, decimal f.table.rows.length)

/-- The tokens of the footer; the ring of the gNB counts the overflow there. -/
def pairs : List (List Char × List Char) :=
  footerPairs (("rows", f.table.rows.length) :: if f.gnb then [("overflow", 0)] else [])
    (some f.bootId.text)

def footer : List Char := '#' :: (f.pairs.map token).flatMap fun tok => ' ' :: tok

def contents : List (List Char) := (f.table.columns :: f.table.rows).map joined ++ [f.footer]

def text : List Char := (block f.contents).take f.length

/-- The file has all rows, the last one perhaps without its newline. -/
def Whole : Prop := f.table.body.length ≤ f.length + 1

/-- The file is cut before its first row has all columns, or has no rows. -/
def NoRow : Prop :=
  ∀ cells ∈ f.table.rows.head?,
    f.length < (block [joined f.table.columns]).length + (leading cells).length

/-- The file has its footer up to `# rows=`. -/
def Counted : Prop := f.table.body.length + 7 ≤ f.length

/-- The file is cut after `overflow=`. -/
def TornOverflow : Prop :=
  f.gnb = true ∧ f.length = f.table.body.length + f.rowsToken.length + 12

instance : Decidable f.Whole := Nat.decLe _ _
instance : Decidable f.NoRow := inferInstanceAs (Decidable (∀ cells ∈ f.table.rows.head?, _))
instance : Decidable f.Counted := Nat.decLe _ _
instance : Decidable f.TornOverflow := instDecidableAnd

end Cut

section

variable {cells : List (List Char)}

theorem piece_joined_cells (hclean : ∀ cell ∈ cells, Clean cell) {part : List Char}
    (h : part <+: joined cells) : Piece part :=
  piece_of_part h fun _ hc => not_mem_joined_cells hclean hc

/-- A piece of a line has all columns when it reaches the last one. -/
theorem length_splitOn_piece (hclean : ∀ cell ∈ cells, Clean cell) (htwo : 2 ≤ cells.length)
    {part : List Char} (h : part <+: joined cells) :
    (part.splitOn ',').length = cells.length ↔ (leading cells).length ≤ part.length := by
  obtain ⟨before, cell, after, p, rfl, hp, hsplit⟩ := splitOn_prefix
    (fun cell hcell hcomma => hclean cell hcell ',' hcomma List.mem_cons_self)
    (List.ne_nil_of_length_pos (by omega)) h
  have hpart : part = (before.flatMap fun cell => cell ++ [',']) ++ p := by
    have hjoin : [','].intercalate (part.splitOn ',') = part := List.intercalate_splitOn ','
    rw [← hjoin, hsplit, intercalate_eq_dropLast (by simp), List.dropLast_concat,
      List.getLast_append_singleton]
  have hle := hp.length_le
  rw [hsplit, leading, hpart]
  cases after with
  | nil =>
    rw [List.dropLast_concat]
    simp
  | cons next after =>
    have hdrop : (before ++ cell :: next :: after).dropLast =
        before ++ cell :: (next :: after).dropLast := by
      rw [List.dropLast_append_of_ne_nil (List.cons_ne_nil _ _),
        List.dropLast_cons_of_ne_nil (List.cons_ne_nil _ _)]
    rw [hdrop, List.flatMap_append, List.flatMap_cons]
    simp only [List.length_append, List.length_cons, List.length_nil]
    omega

end

namespace Table

variable (t : Table)

theorem shape_columns : ∀ cell ∈ t.columns, Clean cell := (t.shape _ List.mem_cons_self).2

theorem lines_clean {rows : List (List (List Char))} (h : ∀ cells ∈ rows, cells ∈ t.rows) :
    ∀ l ∈ (t.columns :: rows).map joined, '\n' ∉ l ∧ '\r' ∉ l := by
  intro l hl
  obtain ⟨cells, hcells, rfl⟩ := List.mem_map.mp hl
  have hclean := (t.shape cells (List.cons_subset_cons _ h hcells)).2
  exact ⟨not_mem_joined_cells hclean (by decide), not_mem_joined_cells hclean (by decide)⟩

/-- The header and some of the rows. -/
theorem lines_read {rows : List (List (List Char))} (h : ∀ cells ∈ rows, cells ∈ t.rows) :
    (((t.columns :: rows).map joined).map (· ++ ['\n'])).foldlM Reading.line Reading.init =
      .ok ⟨some t.columns, rows.map (readRow t.columns), Dict.empty⟩ := by
  rw [List.map_cons, List.map_cons, List.foldlM_cons, line_columns t.shape_columns t.two_le]
  exact lines_cells t.two_le
    (fun cells hcells => t.shape cells (List.mem_cons_of_mem _ (h _ hcells))) [] Dict.empty

end Table

/-! ## A piece of a footer -/

theorem words_flatMap {toks : List (List Char)} (h : ∀ tok ∈ toks, ∀ c ∈ tok, isSpace c = false) :
    words (toks.flatMap fun tok => ' ' :: tok) = toks.filter (· ≠ []) := by
  rw [words, splitOnP_words (by decide) h, List.filter_cons_of_neg (by simp)]

/-- A piece of a line of words holds whole words, and a piece of the next one. -/
theorem words_piece {toks : List (List Char)}
    (h : ∀ tok ∈ toks, tok ≠ [] ∧ ∀ c ∈ tok, isSpace c = false) {q : List Char}
    (hq : q <+: toks.flatMap fun tok => ' ' :: tok) :
    ∃ done p after, toks = done ++ after ∧ words q = done ++ [p].filter (· ≠ []) ∧
      (p = [] ∨ ∃ tok rest, after = tok :: rest ∧ p <+: tok ∧ p ≠ tok) ∧
      (done.flatMap fun tok => ' ' :: tok).length ≤ q.length ∧
      q.length ≤ (done.flatMap fun tok => ' ' :: tok).length + 1 + p.length ∧
      (p ≠ [] → q.length = (done.flatMap fun tok => ' ' :: tok).length + 1 + p.length) := by
  have htake := List.prefix_iff_eq_take.mp hq
  rw [List.flatMap_def] at htake
  obtain ⟨before, part, rest, hblocks, hcut, hpart⟩ :=
    take_flatten (toks.map fun tok => ' ' :: tok) q.length
  obtain ⟨done, after, rfl, rfl, rfl⟩ := List.map_eq_append_iff.mp hblocks
  rw [← htake, ← List.flatMap_def] at hcut
  have hdone : (done.filter (· ≠ [])) = done :=
    List.filter_eq_self.mpr fun tok htok =>
      decide_eq_true (h tok (List.mem_append_left _ htok)).1
  have hwords (p : List Char) (hp : ∀ c ∈ p, isSpace c = false) :
      words ((done.flatMap fun tok => ' ' :: tok) ++ ' ' :: p) =
        done ++ [p].filter (· ≠ []) := by
    have hflat : (done.flatMap fun tok => ' ' :: tok) ++ ' ' :: p =
        (done ++ [p]).flatMap fun tok => ' ' :: tok := by simp
    rw [hflat, words_flatMap, List.filter_append, hdone]
    intro tok htok
    rcases List.mem_append.mp htok with htok | htok
    · exact (h tok (List.mem_append_left _ htok)).2
    · rw [List.mem_singleton.mp htok]
      exact hp
  have hwhole : words (done.flatMap fun tok => ' ' :: tok) = done := by
    rw [words_flatMap fun tok htok => (h tok (List.mem_append_left _ htok)).2, hdone]
  rw [hcut]
  rcases hpart with ⟨hafter, rfl⟩ | ⟨block, more, hafter, hprefix, hne, -⟩
  · refine ⟨done, [], after, rfl, ?_, .inl rfl, ?_⟩
    · rw [List.append_nil, hwhole]
      simp
    · simp
  · obtain ⟨tok, rest, rfl, rfl, -⟩ := List.map_eq_cons_iff.mp hafter
    have htok := (h tok (List.mem_append_right _ List.mem_cons_self)).2
    cases part with
    | nil =>
      refine ⟨done, [], tok :: rest, rfl, ?_, .inl rfl, ?_⟩
      · rw [List.append_nil, hwhole]
        simp
      · simp
    | cons c p =>
      obtain ⟨rfl, hp⟩ := List.cons_prefix_cons.mp hprefix
      have hpne : p ≠ tok := fun heq => hne (heq ▸ rfl)
      refine ⟨done, p, tok :: rest, rfl, hwords p fun c hc => htok c (hp.mem hc),
        .inr ⟨tok, rest, rfl, hp, hpne⟩, ?_⟩
      simp only [List.length_append, List.length_cons]
      exact ⟨by omega, by omega, fun _ => by omega⟩

/-- A piece of a token sets its key once the equals sign is there. -/
theorem addToken_piece {key value p : List Char} (hkey : '=' ∉ key) (h : p <+: token (key, value))
    (footer : Footer) : addToken footer p =
      if p.length ≤ key.length then footer
      else footer.set key (.text (p.drop (key.length + 1))) := by
  obtain ⟨rest, heq⟩ := h
  have hbefore (hp : p <+: key) : addToken footer p = footer :=
    if_neg fun hmem => hkey (hp.mem hmem)
  rcases List.append_eq_append_iff.mp heq with ⟨more, hmore, -⟩ | ⟨more, rfl, hmore⟩
  · have hp : p <+: key := ⟨more, hmore.symm⟩
    rw [if_pos hp.length_le, hbefore hp]
  · cases more with
    | nil =>
      rw [List.append_nil, if_pos (Nat.le_refl _)]
      exact if_neg hkey
    | cons c more =>
      obtain ⟨rfl, -⟩ := List.cons.inj hmore
      have hdrop : (key ++ '=' :: more).drop (key.length + 1) = more := by
        rw [List.drop_append, List.drop_of_length_le (by omega)]
        simp
      rw [if_neg (by simp), hdrop]
      exact addToken_token hkey more footer

/-- A piece of a token leaves the other keys alone. -/
theorem get?_addToken_piece {key value p k : List Char} (hkey : '=' ∉ key)
    (h : p <+: token (key, value)) (hk : k ≠ key) (footer : Footer) :
    (addToken footer p).get? k = footer.get? k := by
  rw [addToken_piece hkey h]
  split
  · rfl
  · rw [Dict.get?_set_ne hk]

theorem isSome_addToken {footer : Footer} {k : List Char} (h : (footer.get? k).isSome)
    (tok : List Char) : ((addToken footer tok).get? k).isSome := by
  rw [addToken]
  split
  · by_cases hk : k = tok.takeWhile (· ≠ '=')
    · rw [← hk, Dict.get?_set_self]
      rfl
    · rw [Dict.get?_set_ne hk]
      exact h
  · exact h

theorem isSome_foldl_addToken {footer : Footer} {k : List Char} (h : (footer.get? k).isSome)
    (toks : List (List Char)) : ((toks.foldl addToken footer).get? k).isSome := by
  induction toks generalizing footer with
  | nil => exact h
  | cons tok toks ih => exact ih (isSome_addToken h tok)

theorem foldl_addToken_single {p : List Char} (h : p ≠ []) (footer : Footer) :
    ([p].filter (· ≠ [])).foldl addToken footer = addToken footer p := by
  rw [List.filter_cons_of_pos (by simpa using h)]
  rfl

namespace Cut

variable (f : Cut)

def rowsKey : List Char := "rows".toList
def overflowKey : List Char := "overflow".toList
def domainKey : List Char := "clock_domain".toList

def others : List (List Char) :=
  (if f.gnb then [token (overflowKey, ['0'])] else []) ++
    [token (domainKey, f.bootId.text.toList)]

theorem tokens_eq : f.pairs.map token = f.rowsToken :: f.others := by
  rw [pairs, others]
  cases f.gnb <;> rfl

theorem tokens_spec : ∀ tok ∈ f.pairs.map token, tok ≠ [] ∧ ∀ c ∈ tok, isSpace c = false := by
  have htoken : ∀ p ∈ f.pairs, IsToken p := by
    refine isToken_footerPairs ?_ fun d hd => ?_
    · cases f.gnb with
      | false =>
        show (["rows"].all fun name => isKey name.toList) = true
        decide
      | true =>
        show (["rows", "overflow"].all fun name => isKey name.toList) = true
        decide
    · obtain rfl := Option.mem_some_iff.mp hd
      exact f.bootId.word
  intro tok htok
  obtain ⟨p, hp, rfl⟩ := List.mem_map.mp htok
  exact ⟨by simp [token], (htoken p hp).word⟩

theorem length_rowsToken : 5 ≤ f.rowsToken.length := by
  rw [rowsToken, token, List.length_append, List.length_cons]
  show 5 ≤ 4 + _
  omega

/-- Pieces of the clock domain's token leave the overflow alone. -/
theorem overflow_domain (footer : Footer) {toks : List (List Char)}
    (h : ∀ tok ∈ toks, tok <+: token (domainKey, f.bootId.text.toList)) :
    (toks.foldl addToken footer).get? overflowKey = footer.get? overflowKey := by
  induction toks generalizing footer with
  | nil => rfl
  | cons tok toks ih =>
    obtain ⟨htok, hrest⟩ := List.forall_mem_cons.mp h
    rw [List.foldl_cons, ih _ hrest, get?_addToken_piece (by decide) htok (by decide)]

/-- The tokens of the clock domain, the last one perhaps a piece. -/
theorem overflow_last (footer : Footer) {done after : List (List Char)} {p : List Char}
    (heq : [token (domainKey, f.bootId.text.toList)] = done ++ after)
    (hp : p = [] ∨ ∃ tok rest, after = tok :: rest ∧ p <+: tok ∧ p ≠ tok) :
    ((done ++ [p].filter (· ≠ [])).foldl addToken footer).get? overflowKey =
      footer.get? overflowKey := by
  refine f.overflow_domain footer fun tok htok => ?_
  have hmem (tok : List Char) (h : tok ∈ done ++ after) :
      tok = token (domainKey, f.bootId.text.toList) := List.mem_singleton.mp (heq ▸ h)
  rcases List.mem_append.mp htok with htok | htok
  · rw [hmem tok (List.mem_append_left _ htok)]
  · obtain ⟨hmemp, hne⟩ := List.mem_filter.mp htok
    obtain rfl := List.mem_singleton.mp hmemp
    obtain ⟨whole, rest, rfl, hprefix, -⟩ := hp.resolve_left (of_decide_eq_true hne)
    rw [← hmem whole (List.mem_append_right _ List.mem_cons_self)]
    exact hprefix

/-- A piece of `overflow=0` counts once the equals sign is its last character. -/
theorem overflow_piece {footer : Footer} (hnone : footer.get? overflowKey = none)
    {p : List Char} (hp : p <+: token (overflowKey, ['0']))
    (hne : p ≠ token (overflowKey, ['0'])) :
    (addToken footer p).get? overflowKey = if p.length = 9 then some (.text []) else none := by
  have height : overflowKey.length = 8 := by decide
  rw [addToken_piece (by decide) hp, height]
  by_cases hshort : p.length ≤ 8
  · rw [if_pos hshort, if_neg (by omega), hnone]
  · have hnine : p.length = 9 := by
      have hten : (token (overflowKey, ['0'])).length = 10 := by decide
      have hle := hp.length_le
      have hlen : p.length ≠ (token (overflowKey, ['0'])).length :=
        fun heq => hne (hp.eq_of_length heq)
      omega
    have hdrop : p.drop (8 + 1) = [] := List.drop_of_length_le (Nat.le_of_eq hnine)
    rw [if_neg hshort, if_pos hnine, Dict.get?_set_self, hdrop]

/-- The overflow that a piece of the tokens behind the count of rows gives. -/
theorem overflow_others (footer : Footer) (hnone : footer.get? overflowKey = none)
    {done after : List (List Char)} {p : List Char} (hothers : f.others = done ++ after)
    (hp : p = [] ∨ ∃ tok rest, after = tok :: rest ∧ p <+: tok ∧ p ≠ tok) :
    let read := ((done ++ [p].filter (· ≠ [])).foldl addToken footer).get? overflowKey
    if f.gnb = true ∧ done = [] ∧ p.length = 9 then read = some (.text [])
    else read = none ∨ read = some (.text ['0']) := by
  dsimp only
  cases hgnb : f.gnb with
  | false =>
    rw [others, hgnb] at hothers
    rw [if_neg (by simp), f.overflow_last footer hothers hp]
    exact .inl hnone
  | true =>
    rw [others, hgnb] at hothers
    cases done with
    | nil =>
      rw [List.nil_append] at hothers ⊢
      by_cases hnil : p = []
      · subst hnil
        rw [if_neg (by simp)]
        exact .inl hnone
      · obtain ⟨tok, rest, rfl, hprefix, hne⟩ := hp.resolve_left hnil
        obtain ⟨rfl, -⟩ := List.cons.inj hothers
        rw [foldl_addToken_single hnil, overflow_piece hnone hprefix hne]
        by_cases hnine : p.length = 9
        · rw [if_pos ⟨rfl, rfl, hnine⟩, if_pos hnine]
        · rw [if_neg fun h => hnine h.2.2, if_neg hnine]
          exact .inl rfl
    | cons tok done =>
      obtain ⟨rfl, hrest⟩ := List.cons.inj hothers
      rw [if_neg (by simp), List.cons_append, List.foldl_cons, f.overflow_last _ hrest hp,
        addToken_token (by decide), Dict.get?_set_self]
      exact .inr rfl

structure ReadsFooter (q : List Char) (footer : Footer) : Prop where
  rows : (footer.get? rowsKey).isSome ↔ 6 ≤ q.length
  overflow : if f.gnb = true ∧ q.length = f.rowsToken.length + 11 then
      footer.get? overflowKey = some (.text [])
    else footer.get? overflowKey = none ∨ footer.get? overflowKey = some (.text ['0'])

/-- The footer ends in the count of rows. -/
theorem readsFooter_count {p q : List Char} (hp : p <+: f.rowsToken)
    (hle : q.length ≤ p.length + 1) (hlen : p ≠ [] → q.length = p.length + 1) :
    f.ReadsFooter q (([p].filter (· ≠ [])).foldl addToken Dict.empty) := by
  have hfive := f.length_rowsToken
  have hshort := hp.length_le
  have hnone (footer : Footer) (h : footer.get? overflowKey = none) :
      if f.gnb = true ∧ q.length = f.rowsToken.length + 11 then
        footer.get? overflowKey = some (.text [])
      else footer.get? overflowKey = none ∨ footer.get? overflowKey = some (.text ['0']) := by
    rw [if_neg (by omega)]
    exact .inl h
  by_cases hnil : p = []
  · subst hnil
    rw [List.length_nil] at hle
    exact ⟨iff_of_false (by decide) (by omega), hnone _ rfl⟩
  · have hq := hlen hnil
    have hfour : rowsKey.length = 4 := by decide
    have hpiece : p <+: token (rowsKey, decimal f.table.rows.length) := hp
    rw [foldl_addToken_single hnil, addToken_piece (by decide) hpiece]
    split
    · exact ⟨iff_of_false (by decide) (by omega), hnone _ rfl⟩
    · refine ⟨iff_of_true ?_ (by omega), hnone _ ?_⟩
      · rw [Dict.get?_set_self]
        rfl
      · rw [Dict.get?_set_ne (by decide)]
        rfl

/-- The length of the piece tells whether it ends in `overflow=`. -/
theorem overflow_torn_iff {done after : List (List Char)} {p q : List Char}
    (hothers : f.others = done ++ after)
    (hlow : f.rowsToken.length + 1 + (done.flatMap fun tok => ' ' :: tok).length ≤ q.length)
    (hhigh : q.length ≤
      f.rowsToken.length + 1 + (done.flatMap fun tok => ' ' :: tok).length + 1 + p.length)
    (hlen : p ≠ [] → q.length =
      f.rowsToken.length + 1 + (done.flatMap fun tok => ' ' :: tok).length + 1 + p.length) :
    f.gnb = true ∧ done = [] ∧ p.length = 9 ↔
      f.gnb = true ∧ q.length = f.rowsToken.length + 11 := by
  refine and_congr_right fun hgnb => ⟨?_, fun hq => ?_⟩
  · rintro ⟨rfl, hnine⟩
    have hq := hlen (List.ne_nil_of_length_pos (by omega))
    rw [List.flatMap_nil, List.length_nil] at hq
    omega
  · cases done with
    | nil =>
      rw [List.flatMap_nil, List.length_nil] at hhigh hlen
      have hpos : 0 < p.length := by omega
      have hq' := hlen (List.ne_nil_of_length_pos hpos)
      exact ⟨rfl, by omega⟩
    | cons tok done =>
      rw [others, hgnb, if_pos rfl] at hothers
      obtain ⟨rfl, -⟩ := List.cons.inj hothers
      have hten : (token (overflowKey, ['0'])).length = 10 := by decide
      rw [List.flatMap_cons, List.length_append, List.length_cons, hten] at hlow
      omega

theorem readsFooter {q : List Char}
    (hq : q <+: (f.pairs.map token).flatMap fun tok => ' ' :: tok) :
    f.ReadsFooter q ((words q).foldl addToken Dict.empty) := by
  obtain ⟨done, p, after, htoks, hwords, hp, hlow, hhigh, hlen⟩ :=
    words_piece f.tokens_spec hq
  rw [tokens_eq] at htoks
  rw [hwords]
  cases done with
  | nil =>
    rw [List.nil_append] at htoks ⊢
    rw [List.flatMap_nil, List.length_nil] at hhigh hlen
    refine f.readsFooter_count ?_ (by omega) fun hne => (hlen hne).trans (by omega)
    rcases hp with rfl | ⟨tok, rest, rfl, hprefix, -⟩
    · exact List.nil_prefix
    · obtain ⟨rfl, -⟩ := List.cons.inj htoks
      exact hprefix
  | cons tok done =>
    obtain ⟨rfl, hothers⟩ := List.cons.inj htoks
    have hfive := f.length_rowsToken
    have hset : addToken Dict.empty f.rowsToken =
        Dict.empty.set rowsKey (.text (decimal f.table.rows.length)) :=
      addToken_token (by decide) _ _
    rw [List.flatMap_cons, List.length_append, List.length_cons] at hlow hhigh hlen
    rw [List.cons_append, List.foldl_cons, hset]
    refine ⟨iff_of_true (isSome_foldl_addToken ?_ _) (by omega), ?_⟩
    · rw [Dict.get?_set_self]
      rfl
    · have hread := f.overflow_others
        (Dict.empty.set rowsKey (.text (decimal f.table.rows.length)))
        (by rw [Dict.get?_set_ne (by decide)]; rfl) hothers hp
      simp only [f.overflow_torn_iff hothers hlow hhigh hlen] at hread
      exact hread

/-! ## The cut -/

theorem contents_clean : ∀ l ∈ f.contents, '\n' ∉ l ∧ '\r' ∉ l := by
  intro l hl
  rcases List.mem_append.mp hl with hl | hl
  · exact f.table.lines_clean (fun _ h => h) l hl
  · rw [List.mem_singleton.mp hl]
    have hnot (c : Char) (hspace : isSpace c = true) (hc : c ∉ ['#', ' ']) : c ∉ f.footer := by
      intro hmem
      rcases List.mem_cons.mp hmem with rfl | hmem
      · exact hc List.mem_cons_self
      · obtain ⟨tok, htok, hmem⟩ := List.mem_flatMap.mp hmem
        rcases List.mem_cons.mp hmem with rfl | hmem
        · exact hc (by decide)
        · rw [(f.tokens_spec tok htok).2 c hmem] at hspace
          cases hspace
    exact ⟨hnot '\n' (by decide) (by decide), hnot '\r' (by decide) (by decide)⟩

end Cut

theorem length_block_append (lines more : List (List Char)) :
    (block (lines ++ more)).length = (block lines).length + (block more).length := by
  rw [block, List.map_append, List.flatten_append, List.length_append]
  rfl

theorem length_block_cons (line : List Char) (lines : List (List Char)) :
    (block (line :: lines)).length = line.length + 1 + (block lines).length := by
  rw [block, List.map_cons, List.flatten_cons, List.length_append, List.length_append]
  rfl

/-- Whole lines, and a piece of one more. -/
theorem readTrace_block (lines : List (List Char)) (h : ∀ l ∈ lines, '\n' ∉ l ∧ '\r' ∉ l)
    {part : List Char} (hnewline : '\n' ∉ part) (hreturn : '\r' ∉ part) :
    readTrace (some (block lines ++ part)) =
      ((lines.map (· ++ ['\n']) ++ if part = [] then [] else [part]).foldlM Reading.line
        Reading.init).map fun r => (r.rows, r.footer) := by
  have hcarriage : '\r' ∉ block lines ++ part := by
    rw [List.mem_append, not_or]
    refine ⟨fun hmem => ?_, hreturn⟩
    obtain ⟨l, hl, hmem⟩ := List.mem_flatten.mp hmem
    obtain ⟨content, hcontent, rfl⟩ := List.mem_map.mp hl
    rcases List.mem_append.mp hmem with hmem | hmem
    · exact (h content hcontent).2 hmem
    · exact absurd hmem (by decide)
  rw [readTrace, universal_eq_self hcarriage, block,
    fileLines_flatten fun l hl => (h l hl).1, fileLines_piece hnewline]

/-- What is left: whole lines, and a piece of the next one. -/
theorem Cut.exists_cut (f : Cut) : ∃ before part after, f.contents = before ++ after ∧
    f.text = block before ++ part ∧
      (after = [] ∧ part = [] ∧ (block f.contents).length ≤ f.length ∨
        ∃ content rest, after = content :: rest ∧ part <+: content ∧
          f.length = (block before).length + part.length) := by
  obtain ⟨blocks, part, rest, hblocks, htake, hcut⟩ :=
    take_flatten (f.contents.map (· ++ ['\n'])) f.length
  obtain ⟨before, after, hcontents, rfl, rfl⟩ := List.map_eq_append_iff.mp hblocks
  refine ⟨before, part, after, hcontents, htake, ?_⟩
  rcases hcut with ⟨hafter, rfl⟩ | ⟨line, more, hafter, hpart, hne, hlen⟩
  · left
    obtain rfl := List.map_eq_nil_iff.mp hafter
    rw [List.append_nil] at hcontents
    have hall := congrArg List.length htake
    rw [List.length_take, ← hcontents, List.append_nil] at hall
    refine ⟨rfl, rfl, ?_⟩
    rw [block]
    omega
  · right
    obtain ⟨content, rest, rfl, rfl, -⟩ := List.map_eq_cons_iff.mp hafter
    exact ⟨content, rest, rfl, (List.prefix_concat_iff.mp hpart).resolve_left hne, hlen⟩

/-- A piece of a row is a row if it has all columns, and malformed otherwise. -/
theorem line_piece (columns : List (List Char)) {part : List Char} (hpart : Piece part)
    (hne : part ≠ []) (rows : List (Dict (List Char) Value)) :
    Reading.line ⟨some columns, rows, Dict.empty⟩ part =
      if (part.splitOn ',').length = columns.length then
        .ok ⟨some columns, rows ++ [readRow columns (part.splitOn ',')], Dict.empty⟩
      else .ok ⟨some columns, rows, Dict.empty.set malformedRows (.count 1)⟩ := by
  rw [Reading.line]
  simp only [chomp_of_not_mem hpart.newline]
  rw [if_neg hne, if_neg (head?_ne hpart.hash)]
  by_cases hlen : (part.splitOn ',').length = columns.length
  · rw [if_neg (not_not.mpr hlen), if_pos hlen]
    rfl
  · rw [if_pos hlen, if_neg hlen]
    rfl

namespace Cut

variable (f : Cut)

structure Reads (rows : List (Dict (List Char) Value)) (footer : Footer) : Prop where
  noRow : rows = [] ↔ f.NoRow
  counted : (footer.get? rowsKey).isSome ↔ f.Counted
  overflow : if f.TornOverflow then footer.get? overflowKey = some (.text [])
    else footer.get? overflowKey = none ∨ footer.get? overflowKey = some (.text ['0'])

variable {f}

/-- A cut before the footer leaves neither a count of rows nor an overflow. -/
theorem Reads.of_short {rows : List (Dict (List Char) Value)} {footer : Footer}
    (hshort : f.length < f.table.body.length) (hrow : rows = [] ↔ f.NoRow)
    (hfooter : footer = Dict.empty ∨ footer = Dict.empty.set malformedRows (.count 1)) :
    f.Reads rows footer := by
  have hkey (key : List Char) (hne : key ≠ malformedRows) : footer.get? key = none := by
    rcases hfooter with rfl | rfl
    · rfl
    · rw [Dict.get?_set_ne hne]
      rfl
  refine ⟨hrow, iff_of_false ?_ ?_, ?_⟩
  · rw [hkey rowsKey (by decide)]
    decide
  · rw [Counted]
    omega
  · have hnot : ¬ f.TornOverflow := fun h => by
      have hlen := h.2
      omega
    rw [if_neg hnot]
    exact .inl (hkey overflowKey (by decide))

theorem length_leading_le {cells : List (List Char)} (hne : cells ≠ []) :
    (leading cells).length ≤ (joined cells).length := by
  rw [joined, intercalate_eq_dropLast hne, leading, List.length_append]
  omega

/-- A file that reaches the end of its first row has a row. -/
theorem not_noRow {first : List (List Char)} {rest : List (List (List Char))}
    (hrows : f.table.rows = first :: rest)
    (hlen : (block [joined f.table.columns, joined first]).length ≤ f.length + 1) : ¬ f.NoRow := by
  intro hnoRow
  have hlt := hnoRow first (by rw [hrows]; rfl)
  have hcells := f.table.shape first (by rw [hrows]; simp)
  have htwo := f.table.two_le
  have hlead : (leading first).length ≤ (joined first).length :=
    length_leading_le (List.ne_nil_of_length_pos (by omega))
  have hnil : (block []).length = 0 := rfl
  rw [length_block_cons, length_block_cons] at hlen
  rw [length_block_cons] at hlt
  omega

/-- Where no row is missing, no row is read only if there is none. -/
theorem Whole.noRow_iff (h : f.Whole) : f.NoRow ↔ f.table.rows = [] := by
  cases hrows : f.table.rows with
  | nil => rw [NoRow, hrows]; simp
  | cons first rest =>
    rw [Whole, Table.body, hrows, List.map_cons, List.map_cons, length_block_cons,
      length_block_cons] at h
    refine iff_of_false (not_noRow hrows ?_) (List.cons_ne_nil _ _)
    have hnil : (block []).length = 0 := rfl
    rw [length_block_cons, length_block_cons]
    omega

/-- A file that ends in a row has no row when that is the first and not all there. -/
theorem noRow_iff_of_row {done rest : List (List (List Char))} {cells : List (List Char)}
    (hrows : f.table.rows = done ++ cells :: rest) {part : List Char}
    (hlen : f.length = (block ((f.table.columns :: done).map joined)).length + part.length) :
    f.NoRow ↔ done = [] ∧ ¬ (leading cells).length ≤ part.length := by
  cases done with
  | nil =>
    rw [and_iff_right rfl, NoRow, hrows, hlen]
    simp only [List.nil_append, List.head?_cons, Option.mem_some_iff, forall_eq', List.map_cons,
      List.map_nil]
    omega
  | cons first more =>
    refine iff_of_false (not_noRow hrows ?_) fun h => List.cons_ne_nil _ _ h.1
    rw [hlen, List.map_cons, List.map_cons, length_block_cons, length_block_cons,
      length_block_cons, length_block_cons]
    have hnil : (block []).length = 0 := rfl
    omega

theorem Counted.whole (h : f.Counted) : f.Whole := by
  rw [Counted] at h
  rw [Whole]
  omega

/-- A file without rows has all its rows with its header. -/
theorem whole_of_rows_nil (h : f.table.rows = []) : f.Whole := by
  have hheader := f.header
  rw [Whole, Table.body, h]
  exact Nat.le_succ_of_le hheader

/-- The file ends in a row. -/
theorem reads_row {done rest : List (List (List Char))} {cells : List (List Char)}
    (hrows : f.table.rows = done ++ cells :: rest) {part : List Char}
    (hpart : part <+: joined cells)
    (htext : f.text = block ((f.table.columns :: done).map joined) ++ part)
    (hlen : f.length = (block ((f.table.columns :: done).map joined)).length + part.length) :
    ∃ rows footer, readTrace (some f.text) = .ok (rows, footer) ∧ f.Reads rows footer := by
  obtain ⟨hcells, hclean⟩ := f.table.shape cells (by rw [hrows]; simp)
  have htwo : 2 ≤ cells.length := hcells ▸ f.table.two_le
  have hpiece := piece_joined_cells hclean hpart
  have hle := hpart.length_le
  have hshort : f.length < f.table.body.length := by
    rw [Table.body, hrows, ← List.cons_append, List.map_append, length_block_append,
      List.map_cons, List.map_cons, length_block_cons, length_block_cons, hlen, List.map_cons,
      length_block_cons]
    omega
  have hdone : ∀ cells ∈ done, cells ∈ f.table.rows := fun c hc => by
    rw [hrows]
    exact List.mem_append_left _ hc
  have hread := readTrace_block ((f.table.columns :: done).map joined)
    (f.table.lines_clean hdone) hpiece.newline hpiece.carriage
  rw [← htext, List.foldlM_append, f.table.lines_read hdone] at hread
  -- the piece is a row when it reaches the last column
  have hsplit := length_splitOn_piece hclean htwo hpart
  have hnoRow (row : List (Dict (List Char) Value))
      (hrow : row = [] ↔ ¬ (leading cells).length ≤ part.length) :
      done.map (readRow f.table.columns) ++ row = [] ↔ f.NoRow := by
    rw [List.append_eq_nil_iff, List.map_eq_nil_iff, hrow, noRow_iff_of_row hrows hlen]
  by_cases hnil : part = []
  · subst hnil
    rw [if_pos rfl] at hread
    have hlead : ¬ (leading cells).length ≤ ([] : List Char).length := by
      rw [← hsplit, List.splitOn_nil, List.length_singleton]
      omega
    have hempty := hnoRow [] (iff_of_true rfl hlead)
    rw [List.append_nil] at hempty
    exact ⟨_, _, hread, .of_short hshort hempty (.inl rfl)⟩
  · have hline := line_piece f.table.columns hpiece hnil (done.map (readRow f.table.columns))
    rw [if_neg hnil] at hread
    have hrest : readTrace (some f.text) = (Reading.line ⟨some f.table.columns,
        done.map (readRow f.table.columns), Dict.empty⟩ part).map fun r => (r.rows, r.footer) := by
      rw [hread]
      show Except.map _ (List.foldlM _ _ [part]) = _
      rw [List.foldlM_cons, hline]
      split <;> rfl
    rw [hrest, hline]
    rw [hcells] at hsplit
    by_cases hall : (part.splitOn ',').length = f.table.columns.length
    · rw [if_pos hall]
      exact ⟨_, _, rfl, .of_short hshort
        (hnoRow _ (iff_of_false (List.cons_ne_nil _ _) (not_not.mpr (hsplit.mp hall)))) (.inl rfl)⟩
    · rw [if_neg hall]
      have hempty := hnoRow [] (iff_of_true rfl (mt hsplit.mpr hall))
      rw [List.append_nil] at hempty
      exact ⟨_, _, rfl, .of_short hshort hempty (.inr rfl)⟩

/-- The file ends in its footer, or is whole. -/
theorem reads_footer {q : List Char} (hq : q <+: (f.pairs.map token).flatMap fun tok => ' ' :: tok)
    (hlong : f.table.body.length ≤ f.length)
    (hlen : f.length = f.table.body.length + 1 + q.length ∨
      f.length ≤ f.table.body.length + 1 ∧ q.length = 0 ∨
      f.table.body.length + 1 + q.length ≤ f.length ∧ f.rowsToken.length + 11 < q.length) :
    f.Reads (f.table.rows.map (readRow f.table.columns))
      ((words q).foldl addToken Dict.empty) := by
  obtain ⟨hrows, hoverflow⟩ := f.readsFooter hq
  have hfive := f.length_rowsToken
  refine ⟨?_, ?_, ?_⟩
  · rw [List.map_eq_nil_iff, Whole.noRow_iff (by rw [Whole]; omega)]
  · rw [hrows, Counted]
    omega
  · have hiff : f.TornOverflow ↔ f.gnb = true ∧ q.length = f.rowsToken.length + 11 := by
      rw [TornOverflow]
      refine and_congr_right fun _ => ?_
      omega
    rw [if_congr hiff rfl rfl]
    exact hoverflow

/-- A footer that is there as a whole. -/
theorem reads_contents (htext : f.text = block f.contents)
    (hlen : (block f.contents).length ≤ f.length) :
    ∃ rows footer, readTrace (some f.text) = .ok (rows, footer) ∧ f.Reads rows footer := by
  have hread := readTrace_block f.contents f.contents_clean List.not_mem_nil List.not_mem_nil
  have hwords : words ((f.pairs.map token).flatMap fun tok => ' ' :: tok) =
      f.pairs.map token := by
    rw [words_flatMap fun tok htok => (f.tokens_spec tok htok).2]
    exact List.filter_eq_self.mpr fun tok htok => decide_eq_true (f.tokens_spec tok htok).1
  rw [List.append_nil, if_pos rfl, List.append_nil, contents, List.map_append,
    List.foldlM_append, f.table.lines_read fun _ h => h] at hread
  have hline := line_footer ⟨some f.table.columns, f.table.rows.map (readRow f.table.columns),
    Dict.empty⟩ f.tokens_spec
  have htrace : readTrace (some f.text) = .ok (f.table.rows.map (readRow f.table.columns),
      (f.pairs.map token).foldl addToken Dict.empty) := by
    rw [htext, contents, hread]
    show Except.map _ (List.foldlM _ _ [f.footer ++ ['\n']]) = _
    rw [List.foldlM_cons, footer, hline]
    rfl
  have hlong : (block f.contents).length = f.table.body.length +
      (((f.pairs.map token).flatMap fun tok => ' ' :: tok).length + 2) := by
    rw [contents, length_block_append]
    congr 1
    simp [block, footer]
  refine ⟨_, _, htrace, ?_⟩
  rw [← hwords]
  refine reads_footer List.prefix_rfl (by omega) (.inr (.inr ⟨by omega, ?_⟩))
  -- the clock domain stands behind the count of rows
  rw [tokens_eq, others, List.flatMap_cons, List.flatMap_append]
  simp only [List.length_append, List.length_cons, List.flatMap_cons, List.flatMap_nil,
    List.length_nil, token]
  have hdomain : domainKey.length = 12 := by decide
  omega

/-- The file ends in its footer. -/
theorem reads_tail {part : List Char} (hpart : part <+: f.footer)
    (htext : f.text = block ((f.table.columns :: f.table.rows).map joined) ++ part)
    (hlen : f.length = f.table.body.length + part.length) :
    ∃ rows footer, readTrace (some f.text) = .ok (rows, footer) ∧ f.Reads rows footer := by
  have hclean := f.contents_clean
  rw [contents, List.forall_mem_append, List.forall_mem_singleton] at hclean
  have hnewline : '\n' ∉ part := fun hmem => hclean.2.1 (hpart.mem hmem)
  have hread := readTrace_block _ hclean.1 hnewline fun hmem => hclean.2.2 (hpart.mem hmem)
  rw [← htext, List.foldlM_append, f.table.lines_read fun _ h => h] at hread
  cases part with
  | nil =>
    have hnone : words ([] : List Char) = [] := by decide
    have hreads := reads_footer (f := f) (q := []) List.nil_prefix (by omega)
      (.inr (.inl ⟨by rw [hlen, List.length_nil]; omega, rfl⟩))
    rw [hnone] at hreads
    exact ⟨_, _, hread, hreads⟩
  | cons c q =>
    obtain ⟨rfl, hq⟩ := List.cons_prefix_cons.mp hpart
    rw [List.length_cons] at hlen
    have hline : Reading.line ⟨some f.table.columns, f.table.rows.map (readRow f.table.columns),
        Dict.empty⟩ ('#' :: q) = .ok ⟨some f.table.columns,
          f.table.rows.map (readRow f.table.columns), (words q).foldl addToken Dict.empty⟩ := by
      rw [Reading.line]
      simp only [chomp_of_not_mem hnewline]
      rw [if_neg (List.cons_ne_nil _ _), if_pos List.head?_cons, List.drop_one, List.tail_cons]
    refine ⟨_, _, ?_, reads_footer hq (by omega) (.inl (by omega))⟩
    rw [hread, if_neg (List.cons_ne_nil _ _)]
    show Except.map _ (List.foldlM _ _ ['#' :: q]) = _
    rw [List.foldlM_cons, hline]
    rfl

variable (f)

/-- `read_trace` on a finished file that is cut anywhere. -/
theorem readTrace_cut :
    ∃ rows footer, readTrace (some f.text) = .ok (rows, footer) ∧ f.Reads rows footer := by
  obtain ⟨before, part, after, hcontents, htext, hcut⟩ := f.exists_cut
  rcases hcut with ⟨rfl, rfl, hlen⟩ | ⟨content, rest, rfl, hpart, hlen⟩
  · rw [List.append_nil] at hcontents htext
    exact reads_contents (hcontents ▸ htext) hlen
  · rcases List.eq_nil_or_concat' rest with rfl | ⟨more, last, rfl⟩
    · obtain ⟨rfl, rfl⟩ := List.append_singleton_inj.mp hcontents
      exact reads_tail hpart htext hlen
    · have hlines : ((f.table.columns :: f.table.rows).map joined) ++ [f.footer] =
          (before ++ content :: more) ++ [last] := by
        rw [List.append_assoc]
        exact hcontents
      obtain ⟨hlines, -⟩ := List.append_singleton_inj.mp hlines
      obtain ⟨done, left, hsplit, rfl, hleft⟩ := List.map_eq_append_iff.mp hlines
      obtain ⟨cells, rest, rfl, rfl, -⟩ := List.map_eq_cons_iff.mp hleft
      cases done with
      | nil =>
        obtain ⟨rfl, -⟩ := List.cons.inj hsplit
        have hle := hpart.length_le
        have hheader := f.header
        rw [length_block_cons] at hheader
        have hnil : (block ([].map joined)).length = 0 := rfl
        omega
      | cons columns done =>
        obtain ⟨rfl, hrows⟩ := List.cons.inj hsplit
        exact reads_row hrows hpart htext hlen

end Cut

def Kind.table (k : Kind) (rows : List k.Row) : Table where
  columns := k.columns
  rows := rows.map k.cells
  two_le := two_le_columns k
  shape := by
    refine List.forall_mem_cons.mpr ⟨⟨rfl, clean_columns k⟩, fun cells hcells => ?_⟩
    obtain ⟨r, -, rfl⟩ := List.mem_map.mp hcells
    exact ⟨length_cells k r, clean_cells k r⟩

/-- A file that the ring of a kind has finished is one that a cut is taken of. -/
theorem fileText_eq_contents (k : Kind) (rows : List k.Row) (bootId : BootId) (n : Nat)
    (h : (block [joined (k.table rows).columns]).length ≤ n) :
    k.fileText (TraceLine.header k.header :: rows.map TraceLine.row ++
        k.footer bootId rows.length 0 0 0) =
      block (Cut.contents ⟨k.table rows, k.isGnb, bootId, n, h⟩) := by
  have hbody : k.writtenText rows = block ((k.columns :: rows.map k.cells).map joined) := by
    rw [writtenText_eq, header_joined, block, List.map_cons, List.map_cons, List.map_cons,
      List.map_map, List.map_map, List.map_map]
    rfl
  have hfooter : (k.footer bootId rows.length 0 0 0).flatMap k.lineText =
      block [Cut.footer ⟨k.table rows, k.isGnb, bootId, n, h⟩] := by
    have hlen : (k.table rows).rows.length = rows.length := List.length_map _
    rw [footer_eq, Kind.footerLines, Cut.footer, Cut.pairs]
    cases k.isGnb
    · simp [block, Kind.lineText, Kind.content, hlen]
    · simp [block, Kind.lineText, Kind.content, hlen]
  have hsplit : Cut.contents ⟨k.table rows, k.isGnb, bootId, n, h⟩ =
      (k.columns :: rows.map k.cells).map joined ++
        [Cut.footer ⟨k.table rows, k.isGnb, bootId, n, h⟩] := rfl
  rw [hsplit, block, List.map_append, List.flatten_append, ← block, ← block, ← hbody, ← hfooter,
    Kind.fileText, List.flatMap_append]
  rfl

end Trace
end P5G
