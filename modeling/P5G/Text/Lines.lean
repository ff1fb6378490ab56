import Mathlib

/-!
# Lines and separated fields

How Python iterates over the lines of a text file, how `split` cuts a line at a
separator, and what both make of a text that was cut short.
-/

namespace P5G
namespace Lines

variable {α : Type*}

/-- Part of a list of fields put together again splits into the fields before
the cut and what is left of the field that was cut. -/
theorem splitOn_prefix [DecidableEq α] {sep : α} {fields : List (List α)} {part : List α}
    (hsep : ∀ f ∈ fields, sep ∉ f) (hne : fields ≠ []) (h : part <+: [sep].intercalate fields) :
    ∃ before f after p, fields = before ++ f :: after ∧ p <+: f ∧
      part.splitOn sep = before ++ [p] := by
  induction fields generalizing part with
  | nil => exact absurd rfl hne
  | cons f fields ih =>
    have hf : sep ∉ f := hsep f List.mem_cons_self
    by_cases hlast : fields = []
    · subst hlast
      rw [List.intercalate_singleton] at h
      refine ⟨[], f, [], part, rfl, h, ?_⟩
      exact List.splitOn_eq_singleton fun hmem => hf (h.mem hmem)
    · rw [List.intercalate_cons_of_ne_nil hlast, List.append_assoc] at h
      obtain ⟨cut, hcut⟩ := h
      rcases List.append_eq_append_iff.mp hcut with ⟨left, hpart, -⟩ | ⟨rest, rfl, hrest⟩
      · have hpre : part <+: f := ⟨left, hpart.symm⟩
        refine ⟨[], f, fields, part, rfl, hpre, ?_⟩
        exact List.splitOn_eq_singleton fun hmem => hf (hpre.mem hmem)
      · have hrest : rest <+: sep :: [sep].intercalate fields := ⟨cut, hrest.symm⟩
        rcases List.prefix_cons_iff.mp hrest with rfl | ⟨tail, rfl, htail⟩
        · refine ⟨[], f, fields, f, rfl, List.prefix_rfl, ?_⟩
          rw [List.append_nil]
          exact List.splitOn_eq_singleton hf
        · obtain ⟨before, g, after, p, rfl, hp, hsplit⟩ :=
            ih (fun g hg => hsep g (List.mem_cons_of_mem _ hg)) hlast htail
          refine ⟨f :: before, g, after, p, rfl, hp, ?_⟩
          rw [List.splitOn_append_cons_self_of_not_mem hf, hsplit]
          rfl

def csvLine : List (List Char) → List Char
  | [] => ['\n']
  | [f] => f ++ ['\n']
  | f :: g :: rest => f ++ ',' :: csvLine (g :: rest)

theorem csvLine_eq {fields : List (List Char)} (h : fields ≠ []) :
    csvLine fields = [','].intercalate fields ++ ['\n'] := by
  induction fields with
  | nil => exact absurd rfl h
  | cons f rest ih =>
    cases rest with
    | nil => rw [csvLine, List.intercalate_singleton]
    | cons g rest =>
      rw [csvLine, ih (List.cons_ne_nil _ _), List.intercalate_cons_cons]
      simp

theorem intercalate_cons_flatMap (sep : α) (f : List α) (fields : List (List α)) :
    [sep].intercalate (f :: fields) = f ++ fields.flatMap fun g => sep :: g := by
  induction fields generalizing f with
  | nil => rw [List.intercalate_singleton, List.flatMap_nil, List.append_nil]
  | cons g fields ih =>
    rw [List.intercalate_cons_cons, ih, List.flatMap_cons, List.append_assoc]
    rfl

theorem mem_intercalate {sep c : α} {fields : List (List α)} (h : c ∈ [sep].intercalate fields) :
    c = sep ∨ ∃ f ∈ fields, c ∈ f := by
  cases fields with
  | nil => cases h
  | cons f fields =>
    rw [intercalate_cons_flatMap, List.mem_append] at h
    rcases h with hf | hrest
    · exact .inr ⟨f, List.mem_cons_self, hf⟩
    · obtain ⟨g, hg, hc⟩ := List.mem_flatMap.mp hrest
      rcases List.mem_cons.mp hc with rfl | hc
      · exact .inl rfl
      · exact .inr ⟨g, List.mem_cons_of_mem _ hg, hc⟩

/-- All fields but the last have a separator behind them. -/
theorem intercalate_eq_dropLast {sep : α} {fields : List (List α)} (h : fields ≠ []) :
    [sep].intercalate fields =
      (fields.dropLast.flatMap fun f => f ++ [sep]) ++ fields.getLast h := by
  induction fields with
  | nil => exact absurd rfl h
  | cons f fields ih =>
    by_cases hlast : fields = []
    · subst hlast
      rw [List.intercalate_singleton]
      rfl
    · rw [List.intercalate_cons_of_ne_nil hlast, ih hlast, List.dropLast_cons_of_ne_nil hlast,
        List.getLast_cons hlast, List.flatMap_cons]
      simp

/-- Blanks before every word give the words back. -/
theorem splitOnP_words {blank : α → Bool} {sep : α} {words : List (List α)} (hsep : blank sep = true)
    (h : ∀ w ∈ words, ∀ c ∈ w, blank c = false) :
    (words.flatMap fun w => sep :: w).splitOnP blank = [] :: words := by
  have hword (w rest : List α) (hw : ∀ c ∈ w, blank c = false) (first : List α)
      (more : List (List α)) (hrest : rest.splitOnP blank = first :: more) :
      (w ++ rest).splitOnP blank = (w ++ first) :: more := by
    induction w with
    | nil => exact hrest
    | cons c w ih =>
      rw [List.cons_append, List.splitOnP_cons_eq_if_modifyHead, if_neg (by simp [hw c]),
        ih (fun d hd => hw d (List.mem_cons_of_mem _ hd))]
      rfl
  induction words with
  | nil => exact List.splitOnP_nil
  | cons w words ih =>
    have hrest := ih (fun v hv => h v (List.mem_cons_of_mem _ hv))
    rw [List.flatMap_cons, List.cons_append, List.splitOnP_cons_eq_if_modifyHead, if_pos hsep,
      hword w _ (h w List.mem_cons_self) _ _ hrest, List.append_nil]

/-- What is left of a list of blocks: whole blocks, and less than one block
more unless nothing was cut off. -/
theorem take_flatten (blocks : List (List α)) (n : Nat) : ∃ before part after,
    blocks = before ++ after ∧ blocks.flatten.take n = before.flatten ++ part ∧
      (after = [] ∧ part = [] ∨ ∃ block rest, after = block :: rest ∧ part <+: block ∧
        part ≠ block ∧ n = before.flatten.length + part.length) := by
  induction blocks generalizing n with
  | nil => exact ⟨[], [], [], rfl, by simp, .inl ⟨rfl, rfl⟩⟩
  | cons block blocks ih =>
    rw [List.flatten_cons]
    by_cases hn : n < block.length
    · refine ⟨[], block.take n, block :: blocks, rfl, ?_, .inr ⟨block, blocks, rfl, ?_, ?_, ?_⟩⟩
      · rw [List.take_append_of_le_length (by omega)]
        rfl
      · exact List.take_prefix n block
      · intro heq
        have hlen := congrArg List.length heq
        rw [List.length_take] at hlen
        omega
      · rw [List.length_take]
        simp
        omega
    · obtain ⟨before, part, after, rfl, htake, hcut⟩ := ih (n - block.length)
      refine ⟨block :: before, part, after, rfl, ?_, ?_⟩
      · rw [List.take_append, List.take_of_length_le (by omega), htake, List.flatten_cons,
          List.append_assoc]
      · refine hcut.imp_right fun ⟨b, rest, hafter, hpart, hne, hlen⟩ => ?_
        refine ⟨b, rest, hafter, hpart, hne, ?_⟩
        rw [List.flatten_cons, List.length_append]
        omega

section Stream

variable [DecidableEq α] (sep : α)

/-- The parts of a stream that are ended by a separator. -/
def ended (stream : List α) : List (List α) := (stream.splitOn sep).dropLast

/-- What comes behind the last separator. -/
def unended (stream : List α) : List α :=
  (stream.splitOn sep).getLast (List.splitOn_ne_nil sep stream)

variable {sep}

theorem splitOn_eq_ended (stream : List α) :
    stream.splitOn sep = ended sep stream ++ [unended sep stream] :=
  (List.dropLast_concat_getLast _).symm

theorem ended_unended_of_splitOn {stream : List α} {parts : List (List α)} {rest : List α}
    (h : stream.splitOn sep = parts ++ [rest]) :
    ended sep stream = parts ∧ unended sep stream = rest := by
  rw [splitOn_eq_ended] at h
  have hlast := List.append_inj' h rfl
  exact ⟨hlast.1, List.singleton_inj.mp hlast.2⟩

theorem ended_of_not_mem {stream : List α} (h : sep ∉ stream) :
    ended sep stream = [] ∧ unended sep stream = stream :=
  ended_unended_of_splitOn (List.splitOn_eq_singleton h)

theorem ended_cons {line : List α} (h : sep ∉ line) (stream : List α) :
    ended sep (line ++ sep :: stream) = line :: ended sep stream ∧
      unended sep (line ++ sep :: stream) = unended sep stream := by
  apply ended_unended_of_splitOn
  rw [List.splitOn_append_cons_self_of_not_mem h, splitOn_eq_ended stream]
  rfl

variable (sep)

/-- A stream is its lines, none with a separator inside, and what follows them. -/
theorem ended_spec (stream : List α) :
    ((ended sep stream).map (· ++ [sep])).flatten ++ unended sep stream = stream ∧
      (∀ line ∈ ended sep stream, sep ∉ line) ∧ sep ∉ unended sep stream := by
  by_cases h : sep ∈ stream
  · obtain ⟨line, rest, heq, hline⟩ := List.eq_append_cons_of_mem h
    obtain ⟨hended, hunended⟩ := ended_cons hline rest
    obtain ⟨ih, ihLines, ihRest⟩ := ended_spec rest
    rw [heq, hended, hunended]
    refine ⟨?_, List.forall_mem_cons.mpr ⟨hline, ihLines⟩, ihRest⟩
    rw [List.map_cons, List.flatten_cons, List.append_assoc, ih, List.append_assoc]
    rfl
  · obtain ⟨hended, hunended⟩ := ended_of_not_mem h
    rw [hended, hunended]
    exact ⟨rfl, fun line hline => absurd hline List.not_mem_nil, h⟩
termination_by stream.length
decreasing_by
  rw [heq, List.length_append, List.length_cons]
  omega

/-- Reading on after a cut: only what was behind the last separator is read again. -/
theorem ended_append (read more : List α) :
    ended sep (read ++ more) = ended sep read ++ ended sep (unended sep read ++ more) ∧
      unended sep (read ++ more) = unended sep (unended sep read ++ more) := by
  by_cases h : sep ∈ read
  · obtain ⟨line, rest, heq, hline⟩ := List.eq_append_cons_of_mem h
    obtain ⟨hended, hunended⟩ := ended_cons hline rest
    obtain ⟨hall, hallRest⟩ := ended_cons hline (rest ++ more)
    obtain ⟨ih, ihRest⟩ := ended_append rest more
    rw [heq, hended, hunended, List.append_assoc, List.cons_append, hall, hallRest, ih, ihRest]
    exact ⟨rfl, rfl⟩
  · obtain ⟨hended, hunended⟩ := ended_of_not_mem h
    rw [hended, hunended]
    exact ⟨rfl, rfl⟩
termination_by read.length
decreasing_by
  rw [heq, List.length_append, List.length_cons]
  omega

end Stream

/-- Universal newlines: what `open` makes of `\r\n` and `\r`.  `after` says that
the last character was a `\r`. -/
def universal (after : Bool) : List Char → List Char
  | [] => []
  | c :: text =>
    if c = '\r' then '\n' :: universal true text
    else if c = '\n' ∧ after then universal false text
    else c :: universal false text

theorem universal_eq_self {text : List Char} (h : '\r' ∉ text) : universal false text = text := by
  induction text with
  | nil => rfl
  | cons c text ih =>
    rw [List.mem_cons, not_or] at h
    rw [universal, if_neg (Ne.symm h.1), if_neg (by simp), ih h.2]

/-- The lines that iterating over a file yields, each with its newline. -/
def fileLines : List Char → List (List Char)
  | [] => []
  | c :: text =>
    if c = '\n' then ['\n'] :: fileLines text
    else
      match fileLines text with
      | [] => [[c]]
      | line :: rest => (c :: line) :: rest

/-- `line.rstrip("\n")` -/
def chomp (line : List Char) : List Char := line.rdropWhile (· = '\n')

theorem fileLines_newline {line : List Char} (h : '\n' ∉ line) (text : List Char) :
    fileLines (line ++ '\n' :: text) = (line ++ ['\n']) :: fileLines text := by
  induction line with
  | nil => rw [List.nil_append, fileLines, if_pos rfl, List.nil_append]
  | cons c line ih =>
    rw [List.mem_cons, not_or] at h
    rw [List.cons_append, fileLines, if_neg (Ne.symm h.1), ih h.2]
    rfl

theorem fileLines_singleton {part : List Char} (h : '\n' ∉ part) (hne : part ≠ []) :
    fileLines part = [part] := by
  induction part with
  | nil => exact absurd rfl hne
  | cons c part ih =>
    rw [List.mem_cons, not_or] at h
    rw [fileLines, if_neg (Ne.symm h.1)]
    by_cases hpart : part = []
    · subst hpart
      rfl
    · rw [ih h.2 hpart]

/-- Whole lines, and what may follow them without a newline. -/
theorem fileLines_flatten {lines : List (List Char)} (h : ∀ l ∈ lines, '\n' ∉ l)
    (part : List Char) : fileLines ((lines.map (· ++ ['\n'])).flatten ++ part) =
      lines.map (· ++ ['\n']) ++ fileLines part := by
  induction lines with
  | nil => rfl
  | cons line lines ih =>
    rw [List.map_cons, List.flatten_cons, List.append_assoc, List.append_assoc,
      List.singleton_append, fileLines_newline (h line List.mem_cons_self),
      ih (fun l hl => h l (List.mem_cons_of_mem _ hl))]
    rfl

theorem chomp_of_not_mem {line : List Char} (h : '\n' ∉ line) : chomp line = line := by
  rw [chomp, List.rdropWhile_eq_self_iff]
  intro hne heq
  rw [← of_decide_eq_true heq] at h
  exact h (List.getLast_mem hne)

theorem chomp_newline {line : List Char} (h : '\n' ∉ line) : chomp (line ++ ['\n']) = line := by
  rw [chomp, List.rdropWhile_concat_pos _ _ _ (by simp)]
  exact chomp_of_not_mem h

end Lines
end P5G
