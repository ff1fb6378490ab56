import P5G.Trace.Cut

/-!
# The verdict on a run

`main` of verify_run.py, on the trace files of a run directory.  The counts and
statistics that it prints and saves have no part in the verdict and are left out.
-/

namespace P5G
namespace VerifyRun

open Trace TraceIo

inductive AppTrace where
  | txFrames | txEncoded | txEncoderRates | txCc | txRtp | txRtcp | txEvents
  | rxFrames | rxDecoded | rxRtp | rxRtcp | rxEvents
  deriving DecidableEq

namespace AppTrace

def name : AppTrace → String
  | txFrames => "tx-frames"
  | txEncoded => "tx-encoded"
  | txEncoderRates => "tx-encoder-rates"
  | txCc => "tx-cc"
  | txRtp => "tx-rtp"
  | txRtcp => "tx-rtcp"
  | txEvents => "tx-events"
  | rxFrames => "rx-frames"
  | rxDecoded => "rx-decoded"
  | rxRtp => "rx-rtp"
  | rxRtcp => "rx-rtcp"
  | rxEvents => "rx-events"

/-- `name.startswith("tx-")` -/
def isTx : AppTrace → Bool
  | txFrames | txEncoded | txEncoderRates | txCc | txRtp | txRtcp | txEvents => true
  | rxFrames | rxDecoded | rxRtp | rxRtcp | rxEvents => false

end AppTrace

def appTraces : List AppTrace :=
  [.txFrames, .txEncoded, .txEncoderRates, .txCc, .txRtp, .txRtcp, .txEvents,
    .rxFrames, .rxDecoded, .rxRtp, .rxRtcp, .rxEvents]

theorem mem_appTraces (n : AppTrace) : n ∈ appTraces := by cases n <;> decide

inductive GnbTrace where
  | schedDl | schedUl | ulCrc | dlHarqAck | bsr | sr | csi | macUlPdu | rlcUl | pdcpUl | pdcpDl
  deriving DecidableEq

def GnbTrace.name : GnbTrace → String
  | schedDl => "gnb_sched_dl"
  | schedUl => "gnb_sched_ul"
  | ulCrc => "gnb_ul_crc"
  | dlHarqAck => "gnb_dl_harq_ack"
  | bsr => "gnb_bsr"
  | sr => "gnb_sr"
  | csi => "gnb_csi"
  | macUlPdu => "gnb_mac_ul_pdu"
  | rlcUl => "gnb_rlc_ul"
  | pdcpUl => "gnb_pdcp_ul"
  | pdcpDl => "gnb_pdcp_dl"

def gnbTraces : List GnbTrace :=
  [.schedDl, .schedUl, .ulCrc, .dlHarqAck, .bsr, .sr, .csi, .macUlPdu, .rlcUl, .pdcpUl, .pdcpDl]

theorem mem_gnbTraces (n : GnbTrace) : n ∈ gnbTraces := by cases n <;> decide

/-- Where a trace file stands: `app/<stream>-<name>.csv`,
`senders/<dir>/app/<stream>-<name>.csv` or `gnb/<name>.csv`. -/
inductive Place where
  | app (stream : String) (n : AppTrace)
  | sender (dir stream : String) (n : AppTrace)
  | gnb (n : GnbTrace)
  deriving DecidableEq

/-- The error sidecars, each with its text, and the trace files. -/
structure RunDir (F : Type*) where
  sidecars : List (String × String)
  files : Dict Place F

def Place.stream : Place → Option String
  | app s .txFrames | app s .rxFrames => some s
  | sender dir _ .txFrames => some dir
  | _ => none

namespace RunDir

variable {F : Type*} (rd : RunDir F)

def streams : List String :=
  ((rd.files.entries.filterMap fun e => e.1.stream).dedup).insertionSort (· ≤ ·)

/-- `(tx_dir(s) if name.startswith("tx-") else app) / f"{s}-{name}.csv"` -/
def place (s : String) (n : AppTrace) : Place :=
  if n.isTx ∧ (rd.files.get? (.sender s s .txFrames)).isSome then .sender s s n else .app s n

end RunDir

/-- `str(v)` -/
def str : FooterValue → List Char
  | .text v => v
  | .count n => Numeral.decimal n

def fileName (s : String) (n : AppTrace) : String := s ++ "-" ++ n.name ++ ".csv"

def appFails (s : String) (n : AppTrace) (file : Option (List Char)) :
    Except PyError (List String) :=
  (readTrace file).map fun (rows, footer) =>
    (if file.isSome ∧ rows = [] then [fileName s n ++ " is empty"] else []) ++
    if file.isSome ∧ rows ≠ [] ∧ (footer.get? "rows".toList).isNone then
      [fileName s n ++ " has no '# rows=' footer: the process did not shut down cleanly" ++
        " (killed / SIGPIPE), tail lost"]
    else []

def gnbFails (n : GnbTrace) (file : Option (List Char)) : Except PyError (List String) :=
  (readTrace file).map fun (rows, footer) =>
    (if rows ≠ [] ∧ (footer.get? "rows".toList).isNone then
      [n.name ++ ".csv has no '# rows=' footer: the gNB did not shut down cleanly, tail lost"]
    else []) ++
    match footer.get? "overflow".toList with
    | none => []
    | some v =>
      if str v ∈ ["0".toList, "0.0".toList] then []
      else [n.name ++ ".csv footer reports overflow=" ++ String.ofList (str v) ++
        ": rows were dropped by the tracer ring"]

def inTurn : List (Except PyError (List String)) → Except PyError (List String)
  | [] => .ok []
  | x :: xs => x.bind fun fails => (inTurn xs).map (fails ++ ·)

def RunDir.fails (rd : RunDir (List Char)) : Except PyError (List String) :=
  inTurn (
    [.ok (rd.sidecars.map fun s =>
        "error sidecar " ++ s.1 ++ ": " ++ String.ofList (Numeral.strip s.2.toList)),
      .ok (if rd.streams = [] then
          ["no <stream>-\x7btx,rx\x7d-frames.csv under app/ or senders/*/app/"]
        else [])] ++
    (rd.streams.flatMap fun s => appTraces.map fun n =>
      appFails s n (rd.files.get? (rd.place s n))) ++
    gnbTraces.map fun n => gnbFails n (rd.files.get? (.gnb n)))

def main (rd : RunDir (List Char)) : Except PyError Nat :=
  rd.fails.map fun fails => if fails = [] then 0 else 1

theorem inTurn_eq_nil {parts : List (Except PyError (List String))} :
    inTurn parts = .ok [] ↔ ∀ x ∈ parts, x = .ok [] := by
  induction parts with
  | nil => simp [inTurn]
  | cons x parts ih =>
    rw [List.forall_mem_cons, ← ih]
    cases x with
    | error e => exact iff_of_false (fun h => nomatch h) fun h => nomatch h.1
    | ok fails =>
      show (inTurn parts).map (fails ++ ·) = .ok [] ↔ _
      cases inTurn parts with
      | error e => exact iff_of_false (fun h => nomatch h) fun h => nomatch h.2
      | ok rest =>
        show Except.ok (fails ++ rest) = .ok [] ↔ Except.ok fails = .ok [] ∧ Except.ok rest = .ok []
        simp only [Except.ok.injEq, List.append_eq_nil_iff]

theorem appFails_none (s : String) (n : AppTrace) : appFails s n none = .ok [] := rfl

theorem gnbFails_none (n : GnbTrace) : gnbFails n none = .ok [] := rfl

/-- An application trace passes with rows and the count of them. -/
theorem appFails_cut (s : String) (n : AppTrace) (f : Cut) :
    appFails s n (some f.text) = .ok [] ↔ f.table.rows ≠ [] ∧ f.Counted := by
  obtain ⟨rows, footer, hread, hnoRow, hcounted, -⟩ := f.readTrace_cut
  rw [appFails, hread]
  simp only [Except.map, Except.ok.injEq, List.append_eq_nil_iff, ite_eq_right_iff,
    List.cons_ne_nil, imp_false, Option.isSome_some, true_and, not_and, Option.isNone_iff_eq_none,
    ← ne_eq, ← Option.isSome_iff_ne_none]
  have hkey : (footer.get? "rows".toList).isSome ↔ f.Counted := hcounted
  rw [hkey]
  constructor
  · rintro ⟨hrows, hcount⟩
    have hf := hcount hrows
    exact ⟨mt (hf.whole.noRow_iff.mpr ·) (mt hnoRow.mpr hrows), hf⟩
  · rintro ⟨hrows, hf⟩
    exact ⟨mt (fun h => hf.whole.noRow_iff.mp (hnoRow.mp h)) hrows, fun _ => hf⟩

/-- A gNB trace passes with the count of rows, and also without a row. -/
theorem gnbFails_cut (n : GnbTrace) (f : Cut) :
    gnbFails n (some f.text) = .ok [] ↔ (f.NoRow ∨ f.Counted) ∧ ¬ f.TornOverflow := by
  obtain ⟨rows, footer, hread, hnoRow, hcounted, hoverflow⟩ := f.readTrace_cut
  have hkey : (footer.get? "rows".toList).isSome ↔ f.Counted := hcounted
  have hcount : (if rows ≠ [] ∧ (footer.get? "rows".toList).isNone then
      [n.name ++ ".csv has no '# rows=' footer: the gNB did not shut down cleanly, tail lost"]
      else []) = [] ↔ f.NoRow ∨ f.Counted := by
    simp only [ite_eq_right_iff, List.cons_ne_nil, imp_false, not_and, Option.isNone_iff_eq_none,
      ← ne_eq, ← Option.isSome_iff_ne_none]
    rw [hkey, ← hnoRow, or_iff_not_imp_left]
  have hlost : (match footer.get? "overflow".toList with
      | none => []
      | some v => if str v ∈ ["0".toList, "0.0".toList] then []
        else [n.name ++ ".csv footer reports overflow=" ++ String.ofList (str v) ++
          ": rows were dropped by the tracer ring"]) = [] ↔ ¬ f.TornOverflow := by
    by_cases htorn : f.TornOverflow
    · rw [if_pos htorn] at hoverflow
      have hget : footer.get? "overflow".toList = some (.text []) := hoverflow
      rw [hget]
      exact iff_of_false (List.cons_ne_nil _ _) (not_not.mpr htorn)
    · rw [if_neg htorn] at hoverflow
      refine iff_of_true ?_ htorn
      rcases hoverflow with hnone | hzero
      · have hget : footer.get? "overflow".toList = none := hnone
        rw [hget]
      · have hget : footer.get? "overflow".toList = some (.text ['0']) := hzero
        rw [hget]
        rfl
  rw [gnbFails, hread]
  show Except.ok _ = Except.ok [] ↔ _
  rw [Except.ok.injEq, List.append_eq_nil_iff]
  exact and_congr hcount hlost

def texts (rd : RunDir Cut) : RunDir (List Char) where
  sidecars := rd.sidecars
  files := rd.files.mapValues Cut.text

variable (rd : RunDir Cut)

/-- The directory has an error sidecar, no stream, an application trace without rows or
without their count, or a gNB trace that has a row and no count, or a torn overflow. -/
def Reported : Prop :=
  rd.sidecars ≠ [] ∨ rd.streams = [] ∨
    (∃ s ∈ rd.streams, ∃ n f, rd.files.get? (rd.place s n) = some f ∧
      (f.table.rows = [] ∨ ¬ f.Counted)) ∨
    ∃ n f, rd.files.get? (.gnb n) = some f ∧ (¬ f.NoRow ∧ ¬ f.Counted ∨ f.TornOverflow)

/-- The files that are looked up. -/
def LookedUp (p : Place) : Prop := (∃ n, p = .gnb n) ∨ ∃ s ∈ rd.streams, ∃ n, p = rd.place s n

theorem streams_texts : (texts rd).streams = rd.streams := by
  rw [RunDir.streams, RunDir.streams, texts, Dict.mapValues, List.filterMap_map]
  rfl

theorem place_texts (s : String) (n : AppTrace) : (texts rd).place s n = rd.place s n := by
  rw [RunDir.place, RunDir.place, texts, Dict.get?_mapValues, Option.isSome_map]

/-- A check that a missing file passes. -/
theorem passes_map {check : Option (List Char) → Except PyError (List String)} {ok : Cut → Prop}
    (hnone : check none = .ok []) (hcut : ∀ f : Cut, check (some f.text) = .ok [] ↔ ok f)
    (file : Option Cut) :
    check (file.map Cut.text) = .ok [] ↔ ∀ f, file = some f → ok f := by
  cases file with
  | none => exact iff_of_true hnone fun f hf => nomatch hf
  | some f =>
    rw [Option.map_some, hcut]
    exact ⟨fun h f' hf' => Option.some_inj.mp hf' ▸ h, fun h => h f rfl⟩

theorem appFails_texts (s : String) (n : AppTrace) :
    appFails s n ((texts rd).files.get? ((texts rd).place s n)) = .ok [] ↔
      ∀ f, rd.files.get? (rd.place s n) = some f → f.table.rows ≠ [] ∧ f.Counted := by
  rw [place_texts, texts, Dict.get?_mapValues]
  exact passes_map (appFails_none s n) (appFails_cut s n) _

theorem gnbFails_texts (n : GnbTrace) :
    gnbFails n ((texts rd).files.get? (.gnb n)) = .ok [] ↔
      ∀ f, rd.files.get? (.gnb n) = some f → (f.NoRow ∨ f.Counted) ∧ ¬ f.TornOverflow := by
  rw [texts, Dict.get?_mapValues]
  exact passes_map (gnbFails_none n) (gnbFails_cut n) _

theorem main_eq_zero_iff_fails (rd : RunDir (List Char)) : main rd = .ok 0 ↔ rd.fails = .ok [] := by
  rw [main]
  cases rd.fails with
  | error e => exact iff_of_false (fun h => nomatch h) fun h => nomatch h
  | ok fails =>
    show Except.ok (if fails = [] then 0 else 1) = .ok 0 ↔ Except.ok fails = .ok []
    split
    · next hnil => exact iff_of_true rfl (congrArg Except.ok hnil)
    · next hne => simpa using hne

theorem main_eq_zero : main (texts rd) = .ok 0 ↔ ¬ Reported rd := by
  have hsidecars : (.ok ((texts rd).sidecars.map fun s => "error sidecar " ++ s.1 ++ ": " ++
      String.ofList (Numeral.strip s.2.toList)) : Except PyError (List String)) = .ok [] ↔
        rd.sidecars = [] := by
    rw [Except.ok.injEq, List.map_eq_nil_iff]
    rfl
  have hstreams : (.ok (if (texts rd).streams = [] then
      ["no <stream>-\x7btx,rx\x7d-frames.csv under app/ or senders/*/app/"] else []) :
        Except PyError (List String)) = .ok [] ↔ rd.streams ≠ [] := by
    rw [Except.ok.injEq, ite_eq_right_iff, streams_texts]
    simp
  rw [main_eq_zero_iff_fails, RunDir.fails, inTurn_eq_nil, List.forall_mem_append,
    List.forall_mem_append, List.forall_mem_cons, List.forall_mem_singleton, hsidecars, hstreams, List.forall_mem_map]
  constructor
  · rintro ⟨⟨⟨hno, hsome⟩, hall⟩, hgnbs⟩ (h | h | ⟨s, hs, n, f, hf, hbad⟩ | ⟨n, f, hf, hbad⟩)
    · exact h hno
    · exact hsome h
    · have hpart := hall _ (List.mem_flatMap.mpr
        ⟨s, streams_texts rd ▸ hs, List.mem_map_of_mem (mem_appTraces n)⟩)
      obtain ⟨hrows, hcounted⟩ := (appFails_texts rd s n).mp hpart f hf
      exact hbad.elim hrows fun h => h hcounted
    · obtain ⟨hrow, htorn⟩ := (gnbFails_texts rd n).mp (hgnbs n (mem_gnbTraces n)) f hf
      exact hbad.elim (fun h => hrow.elim h.1 h.2) htorn
  · intro h
    rw [Reported, not_or, not_or, not_or, not_not] at h
    obtain ⟨hno, hsome, happs, hgnbs⟩ := h
    refine ⟨⟨⟨hno, hsome⟩, ?_⟩, fun n _ => (gnbFails_texts rd n).mpr fun f hf => ?_⟩
    · intro x hx
      obtain ⟨s, hs, hx⟩ := List.mem_flatMap.mp hx
      obtain ⟨n, -, rfl⟩ := List.mem_map.mp hx
      refine (appFails_texts rd s n).mpr fun f hf => ?_
      by_contra hbad
      refine happs ⟨s, streams_texts rd ▸ hs, n, f, hf, ?_⟩
      rwa [not_and_or, ne_eq, not_not] at hbad
    · by_contra hbad
      refine hgnbs ⟨n, f, hf, ?_⟩
      rwa [not_and_or, not_or, not_not] at hbad

/-- A run that passes has all its rows exactly when it fails for some other file, or no
gNB trace that has rows is cut before the first of them and no file with rows missing
stands where it is not looked up. -/
theorem certified_iff :
    (main (texts rd) = .ok 0 → ∀ p f, rd.files.get? p = some f → f.Whole) ↔
      Reported rd ∨
        (∀ n f, rd.files.get? (.gnb n) = some f → f.NoRow → f.table.rows = []) ∧
          ∀ p f, rd.files.get? p = some f → ¬ LookedUp rd p → f.Whole := by
  rw [main_eq_zero]
  constructor
  · intro hwhole
    by_cases hreported : Reported rd
    · exact .inl hreported
    · have hall := hwhole hreported
      exact .inr ⟨fun n f hf hnoRow => (hall _ f hf).noRow_iff.mp hnoRow,
        fun p f hf _ => hall p f hf⟩
  · rintro (hreported | ⟨hgnb, hother⟩) hpass p f hf
    · exact absurd hreported hpass
    · by_cases hlooked : LookedUp rd p
      · rw [Reported, not_or, not_or, not_or] at hpass
        obtain ⟨-, -, happs, hgnbs⟩ := hpass
        by_cases hcounted : f.Counted
        · exact hcounted.whole
        · rcases hlooked with ⟨n, rfl⟩ | ⟨s, hs, n, rfl⟩
          · refine Cut.whole_of_rows_nil (hgnb n f hf ?_)
            by_contra hrow
            exact hgnbs ⟨n, f, hf, .inl ⟨hrow, hcounted⟩⟩
          · exact absurd ⟨s, hs, n, f, hf, .inr hcounted⟩ happs
      · exact hother p f hf hlooked

def bootId : BootId where
  text := "unknown"
  word c hc := by
    have hall : ("unknown".toList.all fun c => !Numeral.isSpace c) = true := by decide
    simpa using List.all_eq_true.mp hall c hc

def wholeFrames : Cut where
  table := Kind.captureFrame.table [default]
  gnb := false
  bootId := bootId
  length := 200
  header := by decide +kernel

def headerOnly : Cut where
  table := Kind.bsr.table [default]
  gnb := true
  bootId := bootId
  length := 88
  header := by decide +kernel

/-- A run whose gNB was killed before its first flush. -/
def killed : RunDir Cut where
  sidecars := []
  files := ⟨[(.app "cam0" .txFrames, wholeFrames), (.gnb .bsr, headerOnly)], 2, by decide⟩

theorem main_killed : main (texts killed) = .ok 0 := by decide +kernel

/-- The run passes, and the report is missing. -/
theorem certified_headerOnly :
    ¬ ∀ rd : RunDir Cut, main (texts rd) = .ok 0 →
      ∀ p f, rd.files.get? p = some f → f.Whole := by
  intro h
  have hmissing : ¬ headerOnly.Whole := by decide +kernel
  exact hmissing (h killed main_killed (.gnb .bsr) headerOnly rfl)

end VerifyRun
end P5G
