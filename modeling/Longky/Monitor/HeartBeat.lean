import Longky.Lib.Reach
import Longky.Net.WfBuffer

/-!
# HeartBeat — which servers are alive

`monitor/heartBeatMonitor.cpp` and the senders of `webServer/start_up.cpp`.  A server sends its
identity over and over on its own connection; the monitor takes what one read brings for an
identity, notes when it came, and every so often marks the identities that have been silent.

A run interleaves the servers, the network and the monitor.  It keeps a history of the heartbeats
that have arrived, each with its last byte, and of the calls of `displayStatus`: what the monitor
ought to know is read off the history.  Time is that of `::time`, in seconds, and does not go back.
-/

namespace Longky
namespace Monitor

open Lib Net

/-! ## The monitor -/

inductive Status where
  | ON
  | OFF
  deriving DecidableEq, Repr

/-- `operator[]` of a map: the value, and the map with an entry for the key. -/
def subscript {α β : Type*} [DecidableEq α] (m : α → Option β) (key : α) (fresh : β) :
    β × (α → Option β) :=
  match m key with
  | some value => (value, m)
  | none => (fresh, Function.update m key (some fresh))

/-- The globals of the monitor. -/
structure HeartBeatMonitor (Conn : Type*) where
  map : Bytes → Option Status := fun _ => none
  vec : List Conn := []
  identityMap : Conn → Option Bytes := fun _ => none
  timeMap : Bytes → Option Nat := fun _ => none

/-- `int diff = now - last_time`. -/
def difference (now last_time : Nat) : Int := ((now : Int) - last_time).bmod (2 ^ 32)

namespace HeartBeatMonitor

variable {Conn : Type*}

/-- Called when a connection is established and when it is closed. -/
def onConnection (m : HeartBeatMonitor Conn) (conn : Conn) : HeartBeatMonitor Conn :=
  { m with vec := m.vec ++ [conn] }

/-- The line `displayStatus` prints for a key: the status and the time of the latest heartbeat. -/
def line (m : HeartBeatMonitor Conn) (key : Bytes) : Option (Status × Nat) :=
  match m.map key with
  | some .ON => some (.ON, (m.timeMap key).getD 0)
  | some .OFF => if key ≠ [] then some (.OFF, (m.timeMap key).getD 0) else none
  | none => none

def ShownOn (m : HeartBeatMonitor Conn) (key : Bytes) : Prop :=
  ∃ latest, m.line key = some (.ON, latest)

variable [DecidableEq Conn]

def onMessage (m : HeartBeatMonitor Conn) (conn : Conn) (buf : WfBuffer) (now : Nat) :
    HeartBeatMonitor Conn × WfBuffer :=
  let (identity, buf) := buf.retrieveAllAsString
  ({ m with
      map := Function.update m.map identity (some .ON)
      identityMap := Function.update m.identityMap conn (some identity)
      timeMap := Function.update m.timeMap identity (some now) }, buf)

/-- The body of the loop of `displayStatus`. -/
def check (now : Nat) (m : HeartBeatMonitor Conn) (conn : Conn) : HeartBeatMonitor Conn :=
  let (identity, identityMap) := subscript m.identityMap conn []
  let (last_time, timeMap) := subscript m.timeMap identity 0
  { m with
    identityMap, timeMap
    map :=
      if 10 + 2 ≤ difference now last_time then Function.update m.map identity (some .OFF)
      else m.map }

def displayStatus (m : HeartBeatMonitor Conn) (now : Nat) : HeartBeatMonitor Conn :=
  m.vec.foldl (check now) m

end HeartBeatMonitor

/-! ## What the monitor knows -/

section Subscript

variable {α β : Type*} [DecidableEq α] (m : α → Option β) (key key' : α) (fresh : β)

@[simp] theorem subscript_fst : (subscript m key fresh).1 = (m key).getD fresh := by
  unfold subscript
  cases m key <;> rfl

/-- An entry that is made on the way changes nothing for a reader. -/
@[simp] theorem getD_subscript_snd :
    ((subscript m key fresh).2 key').getD fresh = (m key').getD fresh := by
  unfold subscript
  cases h : m key with
  | some value => rfl
  | none =>
      by_cases heq : key' = key
      · subst heq
        simp [h]
      · simp [Function.update_of_ne heq]

end Subscript

/-- Below 2^31 seconds the difference is that of the numbers. -/
theorem difference_eq {now last_time : Nat} (hle : last_time ≤ now)
    (hlt : now < last_time + 2 ^ 31) : difference now last_time = (now : Int) - last_time := by
  unfold difference
  rw [Int.bmod_eq_of_le] <;> omega

namespace HeartBeatMonitor

variable {Conn : Type*}

/-- The identity a connection has in `identityMap`, or the empty one. -/
def identityOf (m : HeartBeatMonitor Conn) (conn : Conn) : Bytes := (m.identityMap conn).getD []

def timeOf (m : HeartBeatMonitor Conn) (key : Bytes) : Nat := (m.timeMap key).getD 0

theorem shownOn_iff {m : HeartBeatMonitor Conn} {key : Bytes} :
    m.ShownOn key ↔ m.map key = some .ON := by
  unfold ShownOn line
  rcases m.map key with _ | _ | _
  · simp
  · simp
  · by_cases hkey : key = [] <;> simp [hkey]

variable [DecidableEq Conn] (now : Nat) (m : HeartBeatMonitor Conn)

theorem identityOf_check (conn conn' : Conn) :
    (check now m conn).identityOf conn' = m.identityOf conn' :=
  getD_subscript_snd _ _ _ _

theorem timeOf_check (conn : Conn) (key : Bytes) : (check now m conn).timeOf key = m.timeOf key :=
  getD_subscript_snd _ _ _ _

theorem map_check (conn : Conn) (key : Bytes) :
    (check now m conn).map key =
      if m.identityOf conn = key ∧ 12 ≤ difference now (m.timeOf key) then some .OFF
      else m.map key := by
  unfold check
  simp only [subscript_fst]
  change (if 12 ≤ difference now (m.timeOf (m.identityOf conn)) then
    Function.update m.map (m.identityOf conn) (some .OFF) else m.map) key = _
  by_cases hkey : m.identityOf conn = key
  · subst hkey
    by_cases hold : 12 ≤ difference now (m.timeOf (m.identityOf conn))
    · rw [if_pos hold, if_pos ⟨rfl, hold⟩, Function.update_self]
    · rw [if_neg hold, if_neg fun h => hold h.2]
  · have hnot : ¬ (m.identityOf conn = key ∧ 12 ≤ difference now (m.timeOf key)) :=
      fun h => hkey h.1
    rw [if_neg hnot]
    split
    · exact Function.update_of_ne (Ne.symm hkey) _ _
    · rfl

/-- What `onMessage` notes of a read. -/
def note (conn : Conn) (identity : Bytes) : HeartBeatMonitor Conn :=
  { m with
    map := Function.update m.map identity (some .ON)
    identityMap := Function.update m.identityMap conn (some identity)
    timeMap := Function.update m.timeMap identity (some now) }

theorem onMessage_eq (conn : Conn) (buf : WfBuffer) :
    m.onMessage conn buf now = (m.note now conn buf.readable, buf.retrieveAllAsString.2) := by
  simp only [onMessage, WfBuffer.retrieveAllAsString_fst]
  rfl

theorem map_note (conn : Conn) (identity key : Bytes) :
    (m.note now conn identity).map key = if key = identity then some .ON else m.map key :=
  Function.update_apply _ _ _ _

theorem identityOf_note (conn conn' : Conn) (identity : Bytes) :
    (m.note now conn identity).identityOf conn' =
      if conn' = conn then identity else m.identityOf conn' := by
  unfold identityOf note
  by_cases heq : conn' = conn <;> simp [heq]

theorem timeOf_note (conn : Conn) (identity key : Bytes) :
    (m.note now conn identity).timeOf key = if key = identity then now else m.timeOf key := by
  unfold timeOf note
  by_cases heq : key = identity <;> simp [heq]

/-- The loop of `displayStatus` marks the identities of its connections that have been silent. -/
theorem foldl_check (conns : List Conn) (m : HeartBeatMonitor Conn) :
    (∀ conn, (conns.foldl (check now) m).identityOf conn = m.identityOf conn) ∧
      (∀ key, (conns.foldl (check now) m).timeOf key = m.timeOf key) ∧
        (conns.foldl (check now) m).vec = m.vec ∧
          ∀ key, (conns.foldl (check now) m).map key =
            if (∃ conn ∈ conns, m.identityOf conn = key) ∧ 12 ≤ difference now (m.timeOf key) then
              some .OFF
            else m.map key := by
  induction conns generalizing m with
  | nil => simp
  | cons conn conns ih =>
      obtain ⟨hidentity, htime, hvec, hmap⟩ := ih (check now m conn)
      refine ⟨fun conn' => ?_, fun key => ?_, hvec, fun key => ?_⟩
      · rw [List.foldl_cons, hidentity, identityOf_check]
      · rw [List.foldl_cons, htime, timeOf_check]
      · rw [List.foldl_cons, hmap, map_check]
        simp only [identityOf_check, timeOf_check, List.exists_mem_cons_iff]
        by_cases hold : 12 ≤ difference now (m.timeOf key)
        · simp only [hold, and_true]
          rw [← ite_or]
          exact if_congr or_comm rfl rfl
        · simp only [hold, and_false, if_false]

end HeartBeatMonitor

/-! ## The history -/

inductive Event where
  /-- The last byte of a heartbeat has been read. -/
  | beat (identity : Bytes) (time : Nat)
  | display (time : Nat)
  deriving DecidableEq, Repr

/-- When the last heartbeat of a server arrived.  The latest event comes first. -/
def lastBeat : List Event → Bytes → Option Nat
  | [], _ => none
  | .beat identity time :: history, key =>
      if identity = key then some time else lastBeat history key
  | .display _ :: history, key => lastBeat history key

/-- The last heartbeat arrived after the last `displayStatus`, or less than 12 seconds before it. -/
def Alive : List Event → Bytes → Prop
  | [], _ => False
  | .beat identity _ :: history, key => identity = key ∨ Alive history key
  | .display now :: history, key => ∃ time, lastBeat history key = some time ∧ now < time + 12

/-! ## Runs -/

inductive Phase where
  | fresh
  | connected
  | closed
  deriving DecidableEq, Repr

/-- A connection between a server and the monitor. -/
structure Link where
  phase : Phase := .fresh
  /-- What the server has sent and the monitor has not read. -/
  inFlight : Bytes := []
  inputBuffer_ : WfBuffer := .construct Buffer.kInitialSize
  /-- The number of bytes that have been read. -/
  received : Nat := 0

structure World (Conn : Type*) where
  monitor : HeartBeatMonitor Conn := {}
  link : Conn → Link := fun _ => {}
  now : Nat
  history : List Event := []

inductive Action (Conn : Type*) where
  | connect (conn : Conn)
  /-- `SendHeartBeatInLoop` or `SendHeartBeatInWorkThread` of the server at the other end. -/
  | send (conn : Conn)
  /-- One read of `n` bytes. -/
  | read (conn : Conn) (n : Nat)
  | disconnect (conn : Conn)
  | tick (seconds : Nat)
  | displayStatus
  deriving DecidableEq, Repr

namespace World

variable {Conn : Type*} [DecidableEq Conn]

def setLink (w : World Conn) (conn : Conn) (link : Link) : World Conn :=
  { w with link := Function.update w.link conn link }

/-- `handleRead`, and `onMessage` behind it.  The history gets a heartbeat if the bytes end one. -/
def read (identity : Conn → Bytes) (w : World Conn) (conn : Conn) (n : Nat) : World Conn :=
  let link := w.link conn
  let (monitor, buf) := w.monitor.onMessage conn
    (link.inputBuffer_.readFd (link.inFlight.take n)) w.now
  let length := (identity conn).length
  { w.setLink conn { link with
      inFlight := link.inFlight.drop n
      inputBuffer_ := buf
      received := link.received + n } with
    monitor
    history :=
      if link.received / length < (link.received + n) / length then
        .beat (identity conn) w.now :: w.history
      else w.history }

def enabled (w : World Conn) : Action Conn → Bool
  | .connect conn => (w.link conn).phase == .fresh
  | .send conn | .disconnect conn => (w.link conn).phase == .connected
  | .read conn n =>
      (w.link conn).phase == .connected && 0 < n && n ≤ (w.link conn).inFlight.length
  | .tick _ | .displayStatus => true

def perform (identity : Conn → Bytes) (w : World Conn) : Action Conn → World Conn
  | .connect conn =>
      { w.setLink conn { w.link conn with phase := .connected } with
        monitor := w.monitor.onConnection conn }
  | .send conn =>
      w.setLink conn { w.link conn with inFlight := (w.link conn).inFlight ++ identity conn }
  | .read conn n => w.read identity conn n
  | .disconnect conn =>
      { w.setLink conn { w.link conn with phase := .closed } with
        monitor := w.monitor.onConnection conn }
  | .tick seconds => { w with now := w.now + seconds }
  | .displayStatus =>
      { w with
        monitor := w.monitor.displayStatus w.now
        history := .display w.now :: w.history }

/-- The runs in which the server at the other end of each connection has the identity given. -/
def runs (identity : Conn → Bytes) : System (World Conn) (Action Conn) where
  init w := ∃ now, w = { now }
  step w a w' := w.enabled a = true ∧ w' = w.perform identity a

/-- The monitor knows the servers that have sent a heartbeat, and which of them are alive. -/
structure Faithful (w : World Conn) : Prop where
  keys : ∀ key ≠ [], (w.monitor.map key).isSome = (lastBeat w.history key).isSome
  shown : ∀ key ≠ [], w.monitor.ShownOn key ↔ Alive w.history key

/-- One read brings one whole heartbeat, and no heartbeat is so old that `int` does not hold its
age. -/
def Careful (identity : Conn → Bytes) (w : World Conn) : Action Conn → Prop
  | .read conn n => n = (identity conn).length
  | .displayStatus => ∀ key time, lastBeat w.history key = some time → w.now < time + 2 ^ 31
  | .connect _ | .send _ | .disconnect _ | .tick _ => True

/-! ## The invariant -/

variable {identity : Conn → Bytes} {w w' : World Conn}

omit [DecidableEq Conn] in
/-- The bytes on their way are whole heartbeats, and nothing is left of an earlier read. -/
structure Whole (identity : Bytes) (link : Link) : Prop where
  inFlight : ∃ k, link.inFlight = (List.replicate k identity).flatten
  emptied : link.inputBuffer_.readable = []
  aligned : identity.length ∣ link.received

/-- What a run keeps whose reads bring whole heartbeats. -/
structure Inv (identity : Conn → Bytes) (w : World Conn) : Prop where
  links : ∀ conn, Whole (identity conn) (w.link conn)
  listed : ∀ conn, (w.link conn).phase = .connected → conn ∈ w.monitor.vec
  /-- A connection that has an entry has that of its server, which has sent a heartbeat. -/
  own : ∀ conn, w.monitor.identityOf conn ≠ [] →
    w.monitor.identityOf conn = identity conn ∧ (lastBeat w.history (identity conn)).isSome
  /-- A server that has sent a heartbeat has an entry that `displayStatus` looks at. -/
  owner : ∀ key ≠ [], ∀ time, lastBeat w.history key = some time →
    ∃ conn ∈ w.monitor.vec, w.monitor.identityOf conn = key
  time : ∀ key time, lastBeat w.history key = some time → w.monitor.timeOf key = time ∧ time ≤ w.now
  keys : ∀ key ≠ [], (w.monitor.map key).isSome = (lastBeat w.history key).isSome
  on : ∀ key ≠ [], w.monitor.map key = some .ON ↔ Alive w.history key
  /-- Nobody is marked who has been heard of within 12 seconds. -/
  recent : ∀ key time, lastBeat w.history key = some time → w.now < time + 12 → Alive w.history key

omit [DecidableEq Conn] in
theorem Inv.faithful (h : w.Inv identity) : w.Faithful where
  keys := h.keys
  shown key hkey := HeartBeatMonitor.shownOn_iff.trans (h.on key hkey)

omit [DecidableEq Conn] in
theorem inv_init (identity : Conn → Bytes) (now : Nat) : ({ now } : World Conn).Inv identity where
  links _ :=
    { inFlight := ⟨0, rfl⟩, emptied := WfBuffer.readable_construct _, aligned := Nat.dvd_zero _ }
  listed _ h := nomatch h
  own _ h := absurd rfl h
  owner _ _ _ h := nomatch h
  time _ _ h := nomatch h
  keys _ _ := rfl
  on _ _ := iff_of_false nofun id
  recent _ _ h := nomatch h

theorem Inv.setLink (h : w.Inv identity) {conn : Conn} {link : Link}
    (hwhole : Whole (identity conn) link) (hlisted : link.phase = .connected → conn ∈ w.monitor.vec) :
    (w.setLink conn link).Inv identity :=
  { h with
    links := (Function.forall_update_iff _ fun c => Whole (identity c)).2
      ⟨hwhole, fun c _ => h.links c⟩
    listed := (Function.forall_update_iff _ fun c (l : Link) =>
      l.phase = .connected → c ∈ w.monitor.vec).2 ⟨hlisted, fun c _ => h.listed c⟩ }

omit [DecidableEq Conn] in
/-- `onConnection` adds an entry to `vec`, which loses none. -/
theorem Inv.onConnection (h : w.Inv identity) (conn : Conn) :
    ({ w with monitor := w.monitor.onConnection conn } : World Conn).Inv identity := by
  refine { h with listed := fun c hphase => ?_, owner := fun key hkey time hbeat => ?_ }
  · exact List.mem_append_left _ (h.listed c hphase)
  · rcases h.owner key hkey time hbeat with ⟨c, hmem, howner⟩
    exact ⟨c, List.mem_append_left _ hmem, howner⟩

theorem Inv.setPhase (h : w.Inv identity) (conn : Conn) (phase : Phase) :
    ({ w.setLink conn { w.link conn with phase } with
      monitor := w.monitor.onConnection conn } : World Conn).Inv identity :=
  (h.onConnection conn).setLink { h.links conn with } fun _ =>
    List.mem_append_right _ (List.mem_singleton_self _)

theorem Inv.send (h : w.Inv identity) (conn : Conn) :
    (w.perform identity (.send conn)).Inv identity := by
  rcases (h.links conn).inFlight with ⟨k, hk⟩
  refine h.setLink { h.links conn with inFlight := ⟨k + 1, ?_⟩ } (h.listed conn)
  rw [hk, List.replicate_succ', List.flatten_append, List.flatten_singleton]

theorem Inv.tick (h : w.Inv identity) (seconds : Nat) :
    (w.perform identity (.tick seconds)).Inv identity :=
  { h with
    time := fun key time hbeat =>
      ⟨(h.time key time hbeat).1, (h.time key time hbeat).2.trans (Nat.le_add_right _ _)⟩
    recent := fun key time hbeat hlt =>
      h.recent key time hbeat ((Nat.le_add_right _ _).trans_lt hlt) }

/-- The bytes of a read that is as long as a heartbeat are one. -/
theorem Whole.take {key : Bytes} {link : Link} (h : Whole key link) (hne : key ≠ [])
    (hlen : key.length ≤ link.inFlight.length) :
    link.inFlight.take key.length = key ∧
      ∃ k, link.inFlight.drop key.length = (List.replicate k key).flatten := by
  rcases h.inFlight with ⟨k, hk⟩
  cases k with
  | zero =>
      rw [hk] at hlen
      exact absurd (List.length_eq_zero_iff.1 (Nat.le_zero.1 hlen)) hne
  | succ k =>
      rw [hk, List.replicate_succ, List.flatten_cons, List.take_left, List.drop_left]
      exact ⟨rfl, k, rfl⟩

/-- A heartbeat is noted at the moment it arrives. -/
theorem Inv.note (h : w.Inv identity) {conn : Conn} (hphase : (w.link conn).phase = .connected) :
    ({ w with
      monitor := w.monitor.note w.now conn (identity conn)
      history := .beat (identity conn) w.now :: w.history } : World Conn).Inv identity := by
  have hbeat : ∀ key, lastBeat (.beat (identity conn) w.now :: w.history) key =
      if identity conn = key then some w.now else lastBeat w.history key := fun _ => rfl
  refine { h with
    own := fun c hc => ?_
    owner := fun key hkey time htime => ?_
    time := fun key time htime => ?_
    keys := fun key hkey => ?_
    on := fun key hkey => ?_
    recent := fun key time htime hlt => ?_ }
  · rw [HeartBeatMonitor.identityOf_note] at hc ⊢
    rw [hbeat]
    by_cases hcc : c = conn
    · subst hcc
      rw [if_pos rfl, if_pos rfl]
      exact ⟨rfl, rfl⟩
    · rw [if_neg hcc] at hc ⊢
      refine ⟨(h.own c hc).1, ?_⟩
      split
      · rfl
      · exact (h.own c hc).2
  · -- the owner of another key has not become `conn`, which owns one key only
    simp only [HeartBeatMonitor.identityOf_note]
    by_cases hmine : identity conn = key
    · exact ⟨conn, h.listed conn hphase, (if_pos rfl).trans hmine⟩
    · rw [hbeat, if_neg hmine] at htime
      rcases h.owner key hkey time htime with ⟨c, hmem, hc⟩
      have hcc : c ≠ conn := by
        rintro rfl
        exact hmine ((h.own c (hc ▸ hkey)).1.symm.trans hc)
      exact ⟨c, hmem, (if_neg hcc).trans hc⟩
  · rw [HeartBeatMonitor.timeOf_note]
    rw [hbeat] at htime
    by_cases hmine : identity conn = key
    · rw [if_pos hmine] at htime
      rw [if_pos hmine.symm]
      exact ⟨Option.some.inj htime, (Option.some.inj htime).ge⟩
    · rw [if_neg hmine] at htime
      rw [if_neg (Ne.symm hmine)]
      exact h.time key time htime
  · rw [HeartBeatMonitor.map_note, hbeat]
    by_cases hmine : identity conn = key
    · rw [if_pos hmine.symm, if_pos hmine]
      rfl
    · rw [if_neg (Ne.symm hmine), if_neg hmine]
      exact h.keys key hkey
  · rw [HeartBeatMonitor.map_note]
    by_cases hmine : identity conn = key
    · exact iff_of_true (if_pos hmine.symm) (.inl hmine)
    · rw [if_neg (Ne.symm hmine)]
      exact (h.on key hkey).trans (or_iff_right hmine).symm
  · by_cases hmine : identity conn = key
    · exact .inl hmine
    · rw [hbeat, if_neg hmine] at htime
      exact .inr (h.recent key time htime hlt)

/-- A read of one heartbeat. -/
theorem Inv.read (h : w.Inv identity) {conn : Conn} (hne : identity conn ≠ [])
    (hphase : (w.link conn).phase = .connected)
    (hlen : (identity conn).length ≤ (w.link conn).inFlight.length) :
    (w.read identity conn (identity conn).length).Inv identity := by
  obtain ⟨htake, hrest⟩ := (h.links conn).take hne hlen
  have hpos : 0 < (identity conn).length := List.length_pos_iff.2 hne
  have hread : (WfBuffer.readFd (w.link conn).inputBuffer_
      ((w.link conn).inFlight.take (identity conn).length)).readable = identity conn := by
    rw [WfBuffer.readable_readFd, (h.links conn).emptied, htake, List.nil_append]
  have hbeat : (w.link conn).received / (identity conn).length <
      ((w.link conn).received + (identity conn).length) / (identity conn).length := by
    rw [Nat.add_div_right _ hpos]
    exact Nat.lt_succ_self _
  simp only [World.read, HeartBeatMonitor.onMessage_eq, hread, if_pos hbeat]
  refine (h.note hphase).setLink ⟨hrest, WfBuffer.readable_retrieveAllAsString _, ?_⟩ fun _ => ?_
  · exact Nat.dvd_add (h.links conn).aligned (Nat.dvd_refl _)
  · exact h.listed conn hphase

omit [DecidableEq Conn] in
/-- `displayStatus` marks exactly the servers of which the last heartbeat is 12 seconds old. -/
theorem Inv.silent_iff (h : w.Inv identity)
    (hfits : ∀ key time, lastBeat w.history key = some time → w.now < time + 2 ^ 31)
    {key : Bytes} (hkey : key ≠ []) :
    (∃ c ∈ w.monitor.vec, w.monitor.identityOf c = key) ∧
        12 ≤ difference w.now (w.monitor.timeOf key) ↔
      ∃ time, lastBeat w.history key = some time ∧ time + 12 ≤ w.now := by
  have hold : ∀ time, lastBeat w.history key = some time →
      (12 ≤ difference w.now (w.monitor.timeOf key) ↔ time + 12 ≤ w.now) := by
    intro time hbeat
    obtain ⟨htimeOf, hle⟩ := h.time key time hbeat
    rw [htimeOf, difference_eq hle (hfits key time hbeat)]
    omega
  constructor
  · rintro ⟨⟨c, -, rfl⟩, hlate⟩
    obtain ⟨time, hbeat⟩ := Option.isSome_iff_exists.1 (h.own c hkey).2
    rw [← (h.own c hkey).1] at hbeat
    exact ⟨time, hbeat, (hold time hbeat).1 hlate⟩
  · rintro ⟨time, hbeat, hlate⟩
    exact ⟨h.owner key hkey time hbeat, (hold time hbeat).2 hlate⟩

theorem Inv.displayStatus (h : w.Inv identity)
    (hfits : ∀ key time, lastBeat w.history key = some time → w.now < time + 2 ^ 31) :
    (w.perform identity .displayStatus).Inv identity := by
  obtain ⟨hidentity, htime, hvec, hmap⟩ :=
    HeartBeatMonitor.foldl_check w.now w.monitor.vec w.monitor
  refine { h with
    listed := fun c hphase => hvec ▸ h.listed c hphase
    own := fun c hc => (hidentity c).symm ▸ h.own c (hidentity c ▸ hc)
    owner := fun key hkey time hbeat => ?_
    time := fun key time hbeat => ?_
    keys := fun key hkey => (congrArg Option.isSome (hmap key)).trans ?_
    on := fun key hkey => (Eq.congr_left (hmap key)).trans ?_
    recent := fun key time hbeat hlt => ⟨time, hbeat, hlt⟩ }
  · -- the sweep only ever writes the status of an identity
    rcases h.owner key hkey time hbeat with ⟨c, hmem, hc⟩
    exact ⟨c, hvec.symm ▸ hmem, (hidentity c).trans hc⟩
  · exact ⟨(htime key).trans (h.time key time hbeat).1, (h.time key time hbeat).2⟩
  · by_cases hsilent : ∃ time, lastBeat w.history key = some time ∧ time + 12 ≤ w.now
    · rw [if_pos ((h.silent_iff hfits hkey).2 hsilent)]
      exact (Option.isSome_iff_exists.2 ⟨_, hsilent.choose_spec.1⟩).symm
    · rw [if_neg (mt (h.silent_iff hfits hkey).1 hsilent)]
      exact h.keys key hkey
  · change _ ↔ ∃ time, lastBeat w.history key = some time ∧ w.now < time + 12
    by_cases hsilent : ∃ time, lastBeat w.history key = some time ∧ time + 12 ≤ w.now
    · rw [if_pos ((h.silent_iff hfits hkey).2 hsilent)]
      rcases hsilent with ⟨time, hbeat, hlate⟩
      refine iff_of_false nofun ?_
      rintro ⟨time', hbeat', hlt⟩
      rw [hbeat] at hbeat'
      cases hbeat'
      omega
    · rw [if_neg (mt (h.silent_iff hfits hkey).1 hsilent)]
      constructor
      · intro hon
        have hsome : (lastBeat w.history key).isSome := by rw [← h.keys key hkey, hon]; rfl
        obtain ⟨time, hbeat⟩ := Option.isSome_iff_exists.1 hsome
        exact ⟨time, hbeat, Nat.not_le.1 fun hlate => hsilent ⟨time, hbeat, hlate⟩⟩
      · rintro ⟨time, hbeat, hlt⟩
        exact (h.on key hkey).2 (h.recent key time hbeat hlt)

/-! ## Runs -/

/-- The step lemma. -/
theorem Inv.step (h : w.Inv identity) (hne : ∀ conn, identity conn ≠ []) {a : Action Conn}
    (hcareful : Careful identity w a) (hs : (runs identity).step w a w') : w'.Inv identity := by
  rcases hs with ⟨henabled, rfl⟩
  cases a with
  | connect conn => exact h.setPhase conn .connected
  | send conn => exact h.send conn
  | read conn n =>
      obtain rfl : n = (identity conn).length := hcareful
      obtain ⟨⟨hphase, -⟩, hlen⟩ : (((w.link conn).phase = .connected) ∧ _) ∧ _ := by
        simpa [enabled] using henabled
      exact h.read (hne conn) hphase hlen
  | disconnect conn => exact h.setPhase conn .closed
  | tick seconds => exact h.tick seconds
  | displayStatus => exact h.displayStatus hcareful

theorem inv_of_reachable (hne : ∀ conn, identity conn ≠ [])
    (h : ((runs identity).restrict (Careful identity)).Reachable w) : w.Inv identity := by
  refine h.invariant ?_ fun _ _ _ hinv hs => hinv.step hne hs.1 hs.2
  rintro _ ⟨now, rfl⟩
  exact inv_init identity now

/-- A cut or a pair of heartbeats that reads like no server's identity becomes a server of its
own. -/
theorem not_faithful_of_read (hne : ∀ conn, identity conn ≠ [])
    (h : ((runs identity).restrict (Careful identity)).Reachable w) {conn : Conn} {n : Nat}
    (hn : 0 < n) (hlen : n ≤ (w.link conn).inFlight.length)
    (hdata : ∀ c, identity c ≠ (w.link conn).inFlight.take n) :
    ¬ (w.perform identity (.read conn n)).Faithful := by
  have hinv := inv_of_reachable hne h
  have hread : (WfBuffer.readFd (w.link conn).inputBuffer_
      ((w.link conn).inFlight.take n)).readable = (w.link conn).inFlight.take n := by
    rw [WfBuffer.readable_readFd, (hinv.links conn).emptied, List.nil_append]
  have hkey : (w.link conn).inFlight.take n ≠ [] :=
    List.ne_nil_of_length_pos (by rw [List.length_take]; omega)
  have hon : (w.perform identity (.read conn n)).monitor.map ((w.link conn).inFlight.take n) =
      some .ON := by
    simp only [perform, World.read, HeartBeatMonitor.onMessage_eq, hread, HeartBeatMonitor.map_note,
      if_true]
  generalize (w.link conn).inFlight.take n = key at hdata hkey hon
  intro hfaithful
  -- the key is in the map, so some connection has sent it as a heartbeat: it is its identity
  have hbeat : (w.perform identity (.read conn n)).history = w.history ∨
      (w.perform identity (.read conn n)).history = .beat (identity conn) w.now :: w.history := by
    simp only [perform, World.read]
    split
    · exact .inr rfl
    · exact .inl rfl
  have hsome : (lastBeat w.history key).isSome := by
    have hsome' := hfaithful.keys key hkey
    rw [hon] at hsome'
    rcases hbeat with hbeat | hbeat
    · exact (hbeat ▸ hsome').symm
    · rw [hbeat, lastBeat, if_neg (hdata conn)] at hsome'
      exact hsome'.symm
  obtain ⟨time, htime⟩ := Option.isSome_iff_exists.1 hsome
  rcases hinv.owner key hkey time htime with ⟨c, -, hc⟩
  exact hdata c ((hinv.own c (hc ▸ hkey)).1.symm.trans hc)

/-- Where every read brings one whole heartbeat, the monitor knows after every run which servers
have sent one, and which of them are alive. -/
theorem faithful_of_careful {identity : Conn → Bytes} (hne : ∀ conn, identity conn ≠ [])
    {w : World Conn} (h : ((runs identity).restrict (Careful identity)).Reachable w) :
    w.Faithful :=
  (inv_of_reachable hne h).faithful

def server (_ : Unit) : Bytes := Bytes.ofString "192.168.0.7:40312'1573000000'2071"

/-- One heartbeat, and 12 seconds of silence. -/
def silent : World Unit :=
  [.connect (), .send (), .read () (server ()).length, .tick 12].foldl (perform server)
    { now := 1573000005 }

theorem server_ne_nil (conn : Unit) : server conn ≠ [] := by
  cases conn
  decide

theorem silent_reachable : ((runs server).restrict (Careful server)).Reachable silent := by
  refine .step (a := .tick 12) ?_ ⟨trivial, rfl, rfl⟩
  refine .step (a := .read () (server ()).length) ?_ ⟨rfl, by decide, rfl⟩
  refine .step (a := .send ()) ?_ ⟨trivial, rfl, rfl⟩
  exact .step (a := .connect ()) (.init ⟨_, rfl⟩) ⟨trivial, rfl, rfl⟩

theorem silent_careful : Careful server silent .displayStatus := by
  intro key time hbeat
  have hhistory : silent.history = [.beat (server ()) 1573000005] := by decide +kernel
  rw [hhistory, lastBeat] at hbeat
  split at hbeat
  · cases hbeat
    decide +kernel
  · cases hbeat

theorem faithful_silent : (silent.perform server .displayStatus).Faithful :=
  faithful_of_careful server_ne_nil
    (.step silent_reachable ⟨silent_careful, rfl, rfl⟩)

/-- Two heartbeats come in one read. -/
def coalesced : World Unit :=
  [.connect (), .send (), .send (), .read () (2 * (server ()).length)].foldl
    (perform server) { now := 1573000005 }

/-- The monitor takes them for a third server. -/
theorem heartbeats_coalesce : (runs server).Reachable coalesced ∧ ¬ coalesced.Faithful := by
  constructor
  · refine .step (a := .read () (2 * (server ()).length)) ?_ ⟨by decide, rfl⟩
    refine .step (a := .send ()) ?_ ⟨rfl, rfl⟩
    refine .step (a := .send ()) ?_ ⟨rfl, rfl⟩
    exact .step (a := .connect ()) (.init ⟨_, rfl⟩) ⟨rfl, rfl⟩
  · intro h
    have := h.keys (server () ++ server ()) (by decide)
    revert this
    decide +kernel

end World
end Monitor
end Longky
