import Longky.Base.LocalTime
import Longky.Lib.FileReader

/-!
# ZoneFile — time zones read from a file

`base/time/TimeZone.cpp`: `readTimeZoneFile` and the constructors of `TimeZone`.  The reader fills the
data as it goes, catches the exceptions that it throws itself, and answers `true` in every case, so a
zone from a file is always `valid`.

`File::readBytes` reads into an array on the stack.  `room` is how many bytes the stack has for one;
those of the header always fit.

`usable_iff`: the data of such a zone is complete exactly for the files whose tables can be read.
-/

namespace Longky
namespace Base

open Lib Lib.MachineInt

/-! ## The source -/

namespace ZoneFile

/-- `be32toh` of the bytes of an `int32_t`. -/
def ofInt32 (bytes : Bytes) : Int := toInt (Bytes.ofBigEndian bytes)

def readInt32 : FileReader Int := do
  return ofInt32 (← FileReader.bytes 4)

def readUInt8 : FileReader Nat := do
  return Bytes.ofBigEndian (← FileReader.bytes 1)

/-- The counts of the header that are used. -/
structure Counts where
  timecnt : Int
  typecnt : Int
  charcnt : Int
  deriving DecidableEq, Repr

/-- The header behind its first four bytes. -/
def readCounts : FileReader Counts := do
  let _version ← FileReader.bytes 1
  let _ ← FileReader.bytes 15
  let _isgmtcnt ← readInt32
  let _isstdcnt ← readInt32
  let _leapcnt ← readInt32
  let timecnt ← readInt32
  let typecnt ← readInt32
  let charcnt ← readInt32
  return { timecnt, typecnt, charcnt }

/-- What the source has in `trans` and in its own `localtimes`. -/
def readTransitions (timecnt : Nat) : FileReader (List Int × List Nat) := do
  let times ← FileReader.many readInt32 timecnt
  let indices ← FileReader.many readUInt8 timecnt
  return (times, indices)

/-- What is read before anything is put into the data. -/
def readTables : FileReader (Counts × List Int × List Nat) := do
  let head ← FileReader.bytes 4
  if head ≠ Bytes.ofString "TZif" then failure
  else
    let counts ← readCounts
    -- `trans.reserve(timecnt)` throws a `length_error`
    if counts.timecnt < 0 then failure
    else
      let tables ← readTransitions counts.timecnt.toNat
      return (counts, tables)

def readLocaltime : FileReader Localtime := do
  let gmtoff ← readInt32
  let isdst ← readUInt8
  let abbrind ← readUInt8
  return { gmtOffset := gmtoff, isDst := isdst ≠ 0, arrbIdx := abbrind }

/-- `data->localtimes[localIdx]`, for each transition: `none` behind the end of the vector. -/
def makeTransitions (localtimes : List Localtime) (table : List (Int × Nat)) :
    Option (List Transition) :=
  table.mapM fun (time, localIdx) =>
    localtimes[localIdx]?.map fun loc => ⟨time, time + loc.gmtOffset, localIdx⟩

/-- The part of the try block that fills the data, as it is when the block is left, by its end or by
an exception.  `none` where the behaviour is not defined. -/
def fillData (room : Nat) (counts : Counts) (table : List (Int × Nat)) (file : Bytes) :
    Option ZoneData :=
  match FileReader.upTo readLocaltime counts.typecnt.toNat file with
  | (localtimes, none) => some { localtimes }
  | (localtimes, some file) => do
      let transitions ← makeTransitions localtimes table
      -- `char buf[n]` with a negative n, or over the end of the stack
      if counts.charcnt < 0 ∨ room < counts.charcnt then none
      else
        match (FileReader.bytes counts.charcnt.toNat).run file with
        | none => some { localtimes, transitions }
        | some (abbreviation, _) => some { localtimes, transitions, abbreviation }

/-- The try block. -/
def readData (room : Nat) (file : Bytes) : Option ZoneData :=
  match readTables.run file with
  | none => some {}
  | some ((counts, times, indices), file) => fillData room counts (times.zip indices) file

/-- The file is `none` when it cannot be opened. -/
def readTimeZoneFile (room : Nat) (zonefile : Option Bytes) : Option (Bool × ZoneData) :=
  match zonefile with
  | none => some (true, {})
  | some file => (readData room file).map fun data => (true, data)

end ZoneFile

def TimeZone.ofFile (room : Nat) (zonefile : Option Bytes) : Option TimeZone := do
  let (read, data) ← ZoneFile.readTimeZoneFile room zonefile
  return { data_ := if read then some data else none }

/-! ## Complete data -/

/-- There is a local time for each transition, and one for the time before them. -/
structure ZoneData.Complete (data : ZoneData) : Prop where
  localtimes : data.localtimes ≠ []
  index : ∀ transition ∈ data.transitions, transition.localtimeIdx < data.localtimes.length

theorem ZoneData.Complete.findLocaltime {data : ZoneData} (h : data.Complete)
    (sentry : Transition) (comp : Comp) : ∃ loc, findLocaltime data sentry comp = some loc := by
  rcases findLocaltime_cases data sentry comp with hbefore | ⟨i, transition, hget, -, -, heq⟩
  · rw [findLocaltime_beforeAll hbefore]
    exact ⟨_, List.head?_eq_some_head h.localtimes⟩
  · rw [heq]
    exact ⟨_, List.getElem?_eq_getElem (h.index transition (List.mem_of_getElem? hget))⟩

/-- The zone that is built from a file is invalid, or its data is complete. -/
def Usable (room : Nat) (zonefile : Option Bytes) : Prop :=
  ∃ zone, TimeZone.ofFile room zonefile = some zone ∧
    (zone.valid = false ∨ ∃ data, zone.data_ = some data ∧ data.Complete)

namespace ZoneFile

/-! ## Files that can be read -/

/-- The number at a position of the file. -/
def int32At (file : Bytes) (pos : Nat) : Int := ofInt32 ((file.drop pos).take 4)

def timecnt (file : Bytes) : Int := int32At file 32

def typecnt (file : Bytes) : Int := int32At file 36

def charcnt (file : Bytes) : Int := int32At file 40

/-- The index bytes of the transitions. -/
def indexBytes (file : Bytes) : Bytes :=
  (file.drop (44 + 4 * (timecnt file).toNat)).take (timecnt file).toNat

/-- The header is right, the tables of the transitions are there, and a local time is.  Where all
local times are there, the indices are below their number, and there is room for the text, whose
length is not negative. -/
structure Readable (room : Nat) (file : Bytes) : Prop where
  magic : file.take 4 = Bytes.ofString "TZif"
  header : 44 ≤ file.length
  timecnt_nonneg : 0 ≤ timecnt file
  typecnt_pos : 1 ≤ typecnt file
  tables : 44 + 5 * timecnt file + 6 ≤ file.length
  index : 44 + 5 * timecnt file + 6 * typecnt file ≤ file.length →
    (∀ b ∈ indexBytes file, b.toNat < typecnt file) ∧ 0 ≤ charcnt file ∧ charcnt file ≤ room

/-! ## The readers -/

theorem takes_readInt32 : FileReader.Takes readInt32 4 fun file => ofInt32 (file.take 4) :=
  (FileReader.takes_bytes 4).bind fun bytes => FileReader.takes_pure (ofInt32 bytes)

theorem takes_readUInt8 :
    FileReader.Takes readUInt8 1 fun file => Bytes.ofBigEndian (file.take 1) :=
  (FileReader.takes_bytes 1).bind fun bytes => FileReader.takes_pure (Bytes.ofBigEndian bytes)

theorem takes_readLocaltime : ∃ value, FileReader.Takes readLocaltime 6 value := by
  have htakes := takes_readInt32.bind fun gmtoff => takes_readUInt8.bind fun isdst =>
    takes_readUInt8.bind fun abbrind =>
      FileReader.takes_pure (Localtime.mk gmtoff (isdst ≠ 0) abbrind)
  exact ⟨_, htakes⟩

theorem takes_readCounts : FileReader.Takes readCounts 40 fun file =>
    ⟨int32At file 28, int32At file 32, int32At file 36⟩ := by
  have htakes := (FileReader.takes_bytes 1).bind fun _ => (FileReader.takes_bytes 15).bind fun _ =>
    takes_readInt32.bind fun _ => takes_readInt32.bind fun _ => takes_readInt32.bind fun _ =>
    takes_readInt32.bind fun timecnt => takes_readInt32.bind fun typecnt =>
    takes_readInt32.bind fun charcnt =>
      FileReader.takes_pure (Counts.mk timecnt typecnt charcnt)
  simp only [List.drop_drop] at htakes
  exact htakes

/-- What must be there for the tables of the transitions to be read. -/
structure HasTables (file : Bytes) : Prop where
  magic : file.take 4 = Bytes.ofString "TZif"
  header : 44 ≤ file.length
  timecnt_nonneg : 0 ≤ timecnt file
  tables : 44 + 5 * timecnt file ≤ file.length

variable {room : Nat} {file : Bytes}

/-- The times, and behind them the index bytes. -/
def tablesOf (n : Nat) (file : Bytes) : List Int × List Nat :=
  ((List.range n).map fun i => ofInt32 ((file.drop (i * 4)).take 4),
    ((file.drop (4 * n)).take n).map UInt8.toNat)

theorem map_ofBigEndian_range (n : Nat) (file : Bytes) (hlength : n ≤ file.length) :
    ((List.range n).map fun i => Bytes.ofBigEndian ((file.drop (i * 1)).take 1)) =
      (file.take n).map UInt8.toNat := by
  refine List.ext_getElem (by simp [hlength]) ?_
  intro i hi hi'
  have hlt : i < file.length := by
    simp at hi
    omega
  rw [List.getElem_map, List.getElem_map, List.getElem_range, Nat.mul_one, List.getElem_take,
    List.drop_eq_getElem_cons hlt, List.take_succ_cons, List.take_zero]
  exact Nat.zero_add _

theorem takes_readTransitions (n : Nat) :
    FileReader.Takes (readTransitions n) (5 * n) (tablesOf n) := by
  have htakes := (takes_readInt32.many n).bind fun times => (takes_readUInt8.many n).bind
    fun indices => FileReader.takes_pure (times, indices)
  have hsize : n * 4 + (n * 1 + 0) = 5 * n := by ring
  rw [hsize] at htakes
  intro file
  refine (htakes file).trans ?_
  by_cases hlength : 5 * n ≤ file.length
  · have hbytes : n ≤ (file.drop (n * 4)).length := by
      rw [List.length_drop]
      omega
    rw [if_pos hlength, if_pos hlength]
    beta_reduce
    rw [map_ofBigEndian_range n _ hbytes, mul_comm n 4]
    rfl
  · rw [if_neg hlength, if_neg hlength]

theorem int32At_drop (file : Bytes) (pos n : Nat) :
    int32At (file.drop n) pos = int32At file (n + pos) := by
  rw [int32At, int32At, List.drop_drop]

/-- The first four bytes are taken and checked, and then the counts. -/
theorem readTables_header (hmagic : file.take 4 = Bytes.ofString "TZif")
    (hheader : 44 ≤ file.length) :
    readTables.run file =
      (if timecnt file < 0 then failure
      else do
        let tables ← readTransitions (timecnt file).toNat
        return (⟨timecnt file, typecnt file, charcnt file⟩, tables) :
          FileReader (Counts × List Int × List Nat)).run (file.drop 44) := by
  have hcounts : 40 ≤ (file.drop 4).length := by
    rw [List.length_drop]
    omega
  have htimecnt : int32At (file.drop 4) 28 = timecnt file := int32At_drop file 28 4
  have htypecnt : int32At (file.drop 4) 32 = typecnt file := int32At_drop file 32 4
  have hcharcnt : int32At (file.drop 4) 36 = charcnt file := int32At_drop file 36 4
  unfold readTables
  rw [FileReader.run_bind_eq ((FileReader.takes_bytes 4).run_eq (by omega)),
    if_neg (not_not_intro hmagic), FileReader.run_bind_eq (takes_readCounts.run_eq hcounts),
    htimecnt, htypecnt, hcharcnt, List.drop_drop]

theorem readTables_eq (h : HasTables file) :
    readTables.run file = some ((⟨timecnt file, typecnt file, charcnt file⟩,
      tablesOf (timecnt file).toNat (file.drop 44)), file.drop (44 + 5 * (timecnt file).toNat)) := by
  have hheader := h.header
  have htables := h.tables
  have htransitions : 5 * (timecnt file).toNat ≤ (file.drop 44).length := by
    rw [List.length_drop]
    omega
  rw [readTables_header h.magic h.header, if_neg (not_lt.2 h.timecnt_nonneg),
    FileReader.run_bind_eq ((takes_readTransitions (timecnt file).toNat).run_eq htransitions),
    List.drop_drop]
  rfl

/-- The reader gives up at the first thing that is missing. -/
theorem readTables_eq_none (h : ¬ HasTables file) : readTables.run file = none := by
  by_cases hlength : 4 ≤ file.length
  · have hhead := (FileReader.takes_bytes 4).run_eq hlength
    by_cases hmagic : file.take 4 = Bytes.ofString "TZif"
    · by_cases hheader : 44 ≤ file.length
      · rw [readTables_header hmagic hheader]
        by_cases htimecnt : timecnt file < 0
        · rw [if_pos htimecnt]
          rfl
        -- the header is fine, so the tables are too short
        · have htransitions : (file.drop 44).length < 5 * (timecnt file).toNat := by
            by_contra hle
            rw [List.length_drop] at hle
            exact h ⟨hmagic, hheader, by omega, by omega⟩
          rw [if_neg htimecnt, FileReader.run_bind_eq_none
            ((takes_readTransitions (timecnt file).toNat).run_eq_none htransitions)]
      · have hcounts : (file.drop 4).length < 40 := by
          rw [List.length_drop]
          omega
        unfold readTables
        rw [FileReader.run_bind_eq hhead, if_neg (not_not_intro hmagic),
          FileReader.run_bind_eq_none (takes_readCounts.run_eq_none hcounts)]
    · unfold readTables
      rw [FileReader.run_bind_eq hhead, if_pos hmagic]
      rfl
  · unfold readTables
    rw [FileReader.run_bind_eq_none
      ((FileReader.takes_bytes 4).run_eq_none (Nat.lt_of_not_le hlength))]

/-! ## The transitions -/

theorem makeTransitions_eq_some {localtimes : List Localtime} {table : List (Int × Nat)}
    (h : ∀ entry ∈ table, entry.2 < localtimes.length) :
    ∃ transitions, makeTransitions localtimes table = some transitions ∧
      ∀ transition ∈ transitions, transition.localtimeIdx < localtimes.length := by
  induction table with
  | nil => exact ⟨[], rfl, by simp⟩
  | cons entry table ih =>
      rcases ih fun e he => h e (List.mem_cons_of_mem _ he) with ⟨transitions, heq, hall⟩
      have hlt := h entry List.mem_cons_self
      refine ⟨⟨entry.1, entry.1 + localtimes[entry.2].gmtOffset, entry.2⟩ :: transitions, ?_, ?_⟩
      · unfold makeTransitions at heq ⊢
        simp [List.mapM_cons, heq, List.getElem?_eq_getElem hlt]
      · simpa [hlt] using hall

/-- An index behind the end of the vector. -/
theorem makeTransitions_eq_none {localtimes : List Localtime} {table : List (Int × Nat)}
    {entry : Int × Nat} (hentry : entry ∈ table) (h : localtimes.length ≤ entry.2) :
    makeTransitions localtimes table = none := by
  induction table with
  | nil => cases hentry
  | cons first table ih =>
      unfold makeTransitions at ih ⊢
      rw [List.mapM_cons]
      rcases List.mem_cons.1 hentry with rfl | hrest
      · simp [List.getElem?_eq_none h]
      · simp [ih hrest]

theorem map_snd_tablesOf (n : Nat) (left : Bytes) :
    ((tablesOf n left).1.zip (tablesOf n left).2).map Prod.snd =
      ((left.drop (4 * n)).take n).map UInt8.toNat := by
  refine List.map_snd_zip ?_
  simp [tablesOf]

/-- The two tables side by side. -/
def entries (file : Bytes) : List (Int × Nat) :=
  (tablesOf (timecnt file).toNat (file.drop 44)).1.zip
    (tablesOf (timecnt file).toNat (file.drop 44)).2

theorem map_snd_entries (file : Bytes) :
    (entries file).map Prod.snd = (indexBytes file).map UInt8.toNat := by
  rw [entries, map_snd_tablesOf, List.drop_drop, indexBytes]

theorem forall_entries {P : Nat → Prop} :
    (∀ entry ∈ entries file, P entry.2) ↔ ∀ b ∈ indexBytes file, P b.toNat := by
  rw [← List.forall_mem_map (f := Prod.snd) (P := P), map_snd_entries, List.forall_mem_map]

/-! ## Which files are usable -/

theorem usable_some :
    Usable room (some file) ↔ ∃ data, readData room file = some data ∧ data.Complete := by
  cases hdata : readData room file with
  | none => simp [Usable, TimeZone.ofFile, readTimeZoneFile, hdata]
  | some data => simp [Usable, TimeZone.ofFile, readTimeZoneFile, hdata, TimeZone.valid]

theorem not_usable_none (room : Nat) : ¬ Usable room none := by
  rintro ⟨zone, hzone, hvalid⟩
  cases hzone
  rcases hvalid with hvalid | ⟨data, hdata, hcomplete⟩
  · cases hvalid
  · cases hdata
    exact hcomplete.localtimes rfl

theorem Readable.hasTables (h : Readable room file) : HasTables file := by
  have htables := h.tables
  exact ⟨h.magic, h.header, h.timecnt_nonneg, by omega⟩

/-- What is left of the file behind the tables of the transitions. -/
def rest (file : Bytes) : Bytes := file.drop (44 + 5 * (timecnt file).toNat)

theorem readData_eq (room : Nat) (h : HasTables file) : readData room file =
    fillData room ⟨timecnt file, typecnt file, charcnt file⟩ (entries file) (rest file) := by
  unfold readData entries rest
  rw [readTables_eq h]

theorem length_rest (h : HasTables file) :
    (44 + 5 * timecnt file + (rest file).length : Int) = file.length := by
  have htables := h.tables
  have htimecnt := h.timecnt_nonneg
  unfold rest
  rw [List.length_drop]
  omega

section Fill

variable (room : Nat) (counts : Counts) (table : List (Int × Nat)) {left : Bytes}

/-- The file ends within the local times. -/
theorem fillData_short (hshort : left.length < counts.typecnt.toNat * 6) :
    ∃ localtimes, fillData room counts table left = some { localtimes := localtimes } ∧
      (localtimes = [] ↔ left.length < 6) := by
  rcases takes_readLocaltime with ⟨value, htakes⟩
  have hspec := htakes.upTo_short hshort
  unfold fillData
  generalize FileReader.upTo readLocaltime counts.typecnt.toNat left = read at hspec ⊢
  rcases read with ⟨localtimes, _⟩
  rcases hspec with ⟨rfl, hnil⟩
  exact ⟨localtimes, rfl, hnil⟩

/-- All local times are there: the indices and the length of the text decide. -/
theorem fillData_whole (hwhole : counts.typecnt.toNat * 6 ≤ left.length) :
    (∃ data, fillData room counts table left = some data ∧ data.Complete) ↔
      1 ≤ counts.typecnt ∧ (∀ entry ∈ table, entry.2 < counts.typecnt.toNat) ∧
        0 ≤ counts.charcnt ∧ counts.charcnt ≤ room := by
  rcases takes_readLocaltime with ⟨value, htakes⟩
  obtain ⟨localtimes, left', hupTo, hcount⟩ : ∃ localtimes left',
      FileReader.upTo readLocaltime counts.typecnt.toNat left = (localtimes, some left') ∧
        localtimes.length = counts.typecnt.toNat :=
    ⟨_, _, htakes.upTo_eq hwhole, by simp⟩
  -- a count that is not positive leaves the vector empty
  have hnil : localtimes ≠ [] ↔ 1 ≤ counts.typecnt := by
    rw [← List.length_pos_iff, hcount]
    omega
  unfold fillData
  rw [hupTo, ← hcount, ← hnil]
  by_cases hentries : ∀ entry ∈ table, entry.2 < localtimes.length
  · rcases makeTransitions_eq_some hentries with ⟨transitions, heq, hall⟩
    simp only [heq, Option.bind_eq_bind, Option.bind_some]
    by_cases hcharcnt : counts.charcnt < 0 ∨ room < counts.charcnt
    · rw [if_pos hcharcnt]
      constructor
      · rintro ⟨data, hdata, -⟩
        cases hdata
      · rintro ⟨-, -, hnonneg, hroom⟩
        omega
    · rw [if_neg hcharcnt]
      refine ⟨fun ⟨data, hdata, hcomplete⟩ => ⟨?_, hentries, by omega⟩, fun h => ?_⟩
      -- the text is missing or it is there: the rest of the data is the same
      · split at hdata <;> cases hdata <;> exact hcomplete.localtimes
      · split
        · exact ⟨_, rfl, h.1, hall⟩
        · exact ⟨_, rfl, h.1, hall⟩
  · -- an index behind the end of the vector
    have hbad := hentries
    push Not at hbad
    rcases hbad with ⟨entry, hentry, hle⟩
    have hnone := makeTransitions_eq_none hentry hle
    constructor
    · rintro ⟨data, hdata, -⟩
      simp [hnone] at hdata
    · exact fun h => absurd h.2.1 hentries

end Fill

theorem usable_short (h : HasTables file)
    (hshort : (rest file).length < (typecnt file).toNat * 6) :
    Usable room (some file) ↔ Readable room file := by
  have hlength := length_rest h
  rw [usable_some, readData_eq room h]
  obtain ⟨localtimes, heq, hnil⟩ := fillData_short room
    ⟨timecnt file, typecnt file, charcnt file⟩ (entries file) hshort
  rw [heq]
  constructor
  · rintro ⟨data, hsome, hcomplete⟩
    cases hsome
    -- what has been read of the local times is in the data, and the transitions are not
    have hfirst : ¬ (rest file).length < 6 := fun hlt => hcomplete.localtimes (hnil.2 hlt)
    exact ⟨h.magic, h.header, h.timecnt_nonneg, by omega, by omega, fun hle => by omega⟩
  · intro hreadable
    have htables := hreadable.tables
    have hfirst : ¬ (rest file).length < 6 := by omega
    exact ⟨_, rfl, fun hempty => hfirst (hnil.1 hempty), by simp⟩

theorem usable_whole (h : HasTables file)
    (hwhole : (typecnt file).toNat * 6 ≤ (rest file).length) :
    Usable room (some file) ↔ Readable room file := by
  have hlength := length_rest h
  rw [usable_some, readData_eq room h,
    fillData_whole room ⟨timecnt file, typecnt file, charcnt file⟩ (entries file) hwhole,
    forall_entries (P := (· < (typecnt file).toNat))]
  constructor
  · rintro ⟨hpos, hindex, hcharcnt⟩
    have htypecnt : 1 ≤ typecnt file := hpos
    refine ⟨h.magic, h.header, h.timecnt_nonneg, htypecnt, by omega, fun _ => ⟨?_, hcharcnt⟩⟩
    intro b hb
    have hlt := hindex b hb
    omega
  · intro hreadable
    have htypecnt := hreadable.typecnt_pos
    rcases hreadable.index (by omega) with ⟨hindex, hcharcnt⟩
    refine ⟨htypecnt, fun b hb => ?_, hcharcnt⟩
    have hlt := hindex b hb
    omega

/-- Whatever room there is on the stack, a zone that is built from a file is usable exactly for the
files with readable tables; and in complete data a local time is found for any time. -/
theorem usable_iff (room : Nat) (zonefile : Option Bytes) :
    (Usable room zonefile ↔ ∃ file, zonefile = some file ∧ Readable room file) ∧
    ∀ data : ZoneData, data.Complete → ∀ sentry comp,
      ∃ loc, findLocaltime data sentry comp = some loc := by
  refine ⟨?_, fun data h => h.findLocaltime⟩
  cases zonefile with
  | none => simp [not_usable_none]
  | some file =>
      have hiff : Usable room (some file) ↔ Readable room file := by
        by_cases h : HasTables file
        · rcases Nat.lt_or_ge (rest file).length ((typecnt file).toNat * 6) with hshort | hwhole
          · exact usable_short h hshort
          · exact usable_whole h hwhole
        · refine ⟨fun husable => ?_, fun hreadable => absurd hreadable.hasTables h⟩
          -- nothing has been put into the data
          rcases usable_some.1 husable with ⟨data, hdata, hcomplete⟩
          unfold readData at hdata
          rw [readTables_eq_none h] at hdata
          cases hdata
          exact absurd rfl hcomplete.localtimes
      simp [hiff]

/-- A file that cannot be opened: the zone is valid, and looking for a local time takes the front of
an empty vector, with the 8 MiB that a main thread has by default as with any other stack. -/
theorem missingFile_not_usable : TimeZone.ofFile (8 * 1024 * 1024) none = some ⟨some {}⟩ ∧
    (⟨some {}⟩ : TimeZone).valid = true ∧ findLocaltime {} ⟨0, 0, 0⟩ ⟨true⟩ = none ∧
    ¬ Usable (8 * 1024 * 1024) none :=
  ⟨rfl, rfl, rfl, not_usable_none _⟩

end ZoneFile
end Base
end Longky
