import Mathlib.Data.Char
import Mathlib.Data.List.Lex
import FyreDL.Lib.AssocMap
import FyreDL.Lib.Proc
import FyreDL.Torrent.Client

/-!
# FyreDL.Torrent.Session — the loop over the alerts

`run_session_bckgrnd` pops the alerts that libtorrent has posted and answers them one after
the other. Popping takes the alerts out of libtorrent, so that what it leaves unanswered is
lost.

* A handle is the number of its torrent. Asked for anything, an invalid one throws; which
  ones are valid may change from round to round.
* An alert sends the loop on to the next one, to a new batch (`goto reset`) or out of the
  function (`goto done`). An element behind the end of a vector is undefined.
* `startTorrentDl` enters handles between two rounds, at the paths that they have. Printed
  messages, `sleep_for` and the check of the session in front of the loop are left out, and
  what the file system makes of a resume file.
* `answers_iff` — every alert of every popped batch that asks for something is answered
  exactly if no such alert has an invalid handle or stands behind one that leaves the batch.
-/

namespace FyreDL.Torrent

open Lib

variable {I : Type}

/-! ## The session -/

/-- An element of `state_update_alert::status`: the status of a torrent. -/
structure ListedStatus (I : Type) where
  handle : I
  status : TorrentStatus
deriving DecidableEq, Repr

/-- The alerts that the loop tells apart. -/
inductive SessionAlert (I : Type) where
  | torrentFinished (handle : I)
  | torrentError
  | saveResumeData (handle : I) (torrentName resumeData : Str)
  | stateUpdate (status : List (ListedStatus I))
  | torrentRemoved (message : Str)
  | torrentDeleted (message : Str)
  | torrentPaused (message : Str)
  | other
deriving DecidableEq, Repr

/-- What the loop does to its surroundings. -/
inductive Effect (I : Type) where
  | saveResumeData (handle : I)
  | remove (path : Str)
  | writeResumeFile (file data : Str)
  | xferInternalStats (path : Str) (s : ListedStatus I)
  | postTorrentUpdates
deriving DecidableEq, Repr

/-- `lt_to_handle`: the handles at their paths, in the order of the paths. -/
structure HandleMap (savePath : I → Str) where
  entries : List (Str × I)
  ascending : Ascending entries
  keyed : ∀ e ∈ entries, e.1 = savePath e.2

section HandleMap

variable {savePath : I → Str}

/-- `lt_to_handle.remove(path)`. -/
def HandleMap.remove (m : HandleMap savePath) (path : Str) : HandleMap savePath where
  entries := eraseKey m.entries path
  ascending := m.ascending.sublist (eraseKey_sublist m.entries path)
  keyed := fun e he => m.keyed e (mem_eraseKey.mp he).1

/-- `lt_to_handle.insert(handle.save_path(), handle)`. -/
def HandleMap.insert (m : HandleMap savePath) (handle : I) : HandleMap savePath where
  entries := insertOrd (savePath handle) handle m.entries
  ascending := ascending_insertOrd (savePath handle) handle m.ascending
  keyed := by
    intro e he
    rcases (mem_insertOrd m.ascending).mp he with rfl | ⟨hold, -⟩
    · rfl
    · exact m.keyed e hold

theorem HandleMap.remove_ne (m : HandleMap savePath) (path : Str) :
    ∀ e ∈ (m.remove path).entries, e.1 ≠ path := fun _ he => (mem_eraseKey.mp he).2

end HandleMap

/-- `lt_to_handle`, and what has been done so far. -/
structure TorrentSession (savePath : I → Str) where
  ltToHandle : HandleMap savePath
  performed : List (Effect I)

/-- Where an alert sends the loop. -/
inductive Leaves where
  | next | reset | done
deriving DecidableEq, Repr

section Loop

variable (savePath : I → Str) (valid : I → Bool)

/-- Part of the loop. It throws what libtorrent does, and is stuck on undefined behaviour. -/
abbrev SessionProc := Proc (TorrentSession savePath) Str

def invalidTorrentHandle : Str := "invalid torrent handle used".toList

variable {savePath} in
def perform (effect : Effect I) : SessionProc savePath Unit :=
  Proc.modify fun s => { s with performed := s.performed ++ [effect] }

/-- `handle.save_resume_data()`. -/
def requestResumeData (handle : I) : SessionProc savePath Unit :=
  if valid handle then perform (.saveResumeData handle) else Proc.throw invalidTorrentHandle

/-- `handle.save_path()`, or `handle.status().save_path`. -/
def pathOf (handle : I) : SessionProc savePath Str :=
  if valid handle then pure (savePath handle) else Proc.throw invalidTorrentHandle

/-- The loop over `lt_to_handle` that emits `xfer_internal_stats`. The status of a handle is
looked for at its position. -/
def emitStats (status : List (ListedStatus I)) : Nat → List (Str × I) → SessionProc savePath Unit
  | _, [] => pure ()
  | p, (_, handle) :: rest =>
    match status[p]? with
    | none => fun session => (.stuck, session)
    | some s => do
      let path ← pathOf savePath valid handle
      perform (.xferInternalStats path s)
      emitStats status (p + 1) rest

/-- An alert that ends the loop, unless its message is empty. -/
def endsWith (message : Str) : SessionProc savePath Leaves :=
  if message = [] then pure .next else pure .done

/-- The body of the loop. It asks a second time for a finished torrent, which it does not
get to. -/
def answerAlert : SessionAlert I → SessionProc savePath Leaves
  | .torrentFinished handle => do
    requestResumeData savePath valid handle
    let path ← pathOf savePath valid handle
    Proc.modify fun s =>
      { s with ltToHandle := s.ltToHandle.remove path, performed := s.performed ++ [.remove path] }
    pure .reset
  | .torrentError => pure .reset
  | .saveResumeData handle torrentName resumeData => do
    let path ← pathOf savePath valid handle
    perform (.writeResumeFile (path ++ torrentName ++ fyredlTorrentResumeFileExt) resumeData)
    pure .next
  | .stateUpdate status =>
    if status = [] then pure .next
    else do
      let session ← Proc.state
      emitStats savePath valid status 0 session.ltToHandle.entries
      pure .next
  | .torrentRemoved message => endsWith savePath message
  | .torrentDeleted message => endsWith savePath message
  | .torrentPaused message => endsWith savePath message
  | .other => pure .next

/-- The loop over the popped alerts. -/
def answerAlerts : List (SessionAlert I) → SessionProc savePath Leaves
  | [] => pure .next
  | alert :: rest => do
    match ← answerAlert savePath valid alert with
    | .next => answerAlerts rest
    | .reset => pure .reset
    | .done => pure .done

/-- The loop that requests the resume data of all torrents. -/
def requestAll : List (Str × I) → SessionProc savePath Unit
  | [] => pure ()
  | e :: rest => do
    requestResumeData savePath valid e.2
    requestAll rest

end Loop

/-- A round: the alerts that are popped, the handles that are valid then, and the two
readings of the clock behind the alerts, in nanoseconds. -/
structure Round (I : Type) where
  alerts : List (SessionAlert I)
  valid : I → Bool
  now : Int
  later : Int

/-- `std::chrono::seconds(30)`. -/
def saveResumeInterval : Int := 30000000000

/-- The session, `last_save_resume`, and whether the function still runs. -/
structure SessionLoop (savePath : I → Str) where
  session : TorrentSession savePath
  lastSaveResume : Int
  running : Bool

inductive SessionAction (I : Type) where
  | round (r : Round I)
  | insert (handle : I)

variable {savePath : I → Str}

/-- A round of `run_session_bckgrnd`. An exception ends the function. -/
def SessionLoop.round (s : SessionLoop savePath) (r : Round I) : SessionLoop savePath :=
  match answerAlerts savePath r.valid r.alerts s.session with
  | (.ret .next, session) =>
    let posted := { session with performed := session.performed ++ [.postTorrentUpdates] }
    if r.now - s.lastSaveResume > saveResumeInterval then
      match requestAll savePath r.valid posted.ltToHandle.entries posted with
      | (.ret (), session) => ⟨session, r.later, true⟩
      | (_, session) => ⟨session, s.lastSaveResume, false⟩
    else ⟨posted, s.lastSaveResume, true⟩
  | (.ret .reset, session) => { s with session := session }
  | (_, session) => ⟨session, s.lastSaveResume, false⟩

def SessionLoop.step (s : SessionLoop savePath) : SessionAction I → SessionLoop savePath
  | .round r => if s.running then s.round r else s
  | .insert handle =>
    { s with session := { s.session with ltToHandle := s.session.ltToHandle.insert handle } }

/-! ## Alerts that ask for something -/

/-- A finished torrent and resume data that are ready ask for something to be done. -/
def SessionAlert.asks : SessionAlert I → Bool
  | .torrentFinished _ => true
  | .saveResumeData .. => true
  | _ => false

/-- What the alert asks for. -/
def SessionAlert.due (savePath : I → Str) : SessionAlert I → List (Effect I)
  | .torrentFinished handle => [.saveResumeData handle, .remove (savePath handle)]
  | .saveResumeData handle torrentName resumeData =>
    [.writeResumeFile (savePath handle ++ torrentName ++ fyredlTorrentResumeFileExt) resumeData]
  | _ => []

def Effect.isAnswer : Effect I → Bool
  | .saveResumeData _ => true
  | .remove _ => true
  | .writeResumeFile .. => true
  | _ => false

/-- The answers that have been given. -/
def TorrentSession.answers (s : TorrentSession savePath) : List (Effect I) :=
  s.performed.filter Effect.isAnswer

/-- Between the two states the alerts have been answered, in their order, and `lt_to_handle`
has none of the finished torrents. -/
structure Answered (alerts : List (SessionAlert I)) (s s' : TorrentSession savePath) : Prop where
  answers : s'.answers = s.answers ++ alerts.flatMap (SessionAlert.due savePath)
  removed : ∀ handle, .torrentFinished handle ∈ alerts →
    ∀ e ∈ s'.ltToHandle.entries, e.1 ≠ savePath handle

/-- The handle of an alert that asks for something is valid. -/
def SessionAlert.answerable (valid : I → Bool) : SessionAlert I → Bool
  | .torrentFinished handle => valid handle
  | .saveResumeData handle .. => valid handle
  | _ => true

/-- The loop goes on behind the alert. A state update needs a status for each torrent of the
map, and their handles valid. -/
def SessionAlert.GoesOn (valid : I → Bool) (entries : List (Str × I)) : SessionAlert I → Prop
  | .torrentFinished _ => False
  | .torrentError => False
  | .saveResumeData handle .. => valid handle = true
  | .stateUpdate status =>
    status = [] ∨ entries.length ≤ status.length ∧ ∀ e ∈ entries, valid e.2 = true
  | .torrentRemoved message => message = []
  | .torrentDeleted message => message = []
  | .torrentPaused message => message = []
  | .other => True

/-- The alerts that ask for something have valid handles, and none of them stands behind an
alert that leaves the batch. -/
def InReach (valid : I → Bool) (entries : List (Str × I)) : List (SessionAlert I) → Prop
  | [] => True
  | alert :: rest => alert.answerable valid = true ∧
    (alert.GoesOn valid entries ∨ ∀ later ∈ rest, later.asks = false) ∧ InReach valid entries rest

section Answers

variable {valid : I → Bool}

theorem due_eq_nil_iff {alert : SessionAlert I} : alert.due savePath = [] ↔ alert.asks = false := by
  cases alert <;> simp [SessionAlert.due, SessionAlert.asks]

theorem flatMap_due_eq_nil_iff {alerts : List (SessionAlert I)} :
    alerts.flatMap (SessionAlert.due savePath) = [] ↔ ∀ alert ∈ alerts, alert.asks = false := by
  rw [List.flatMap_eq_nil_iff]
  exact forall₂_congr fun _ _ => due_eq_nil_iff

theorem SessionAlert.answerable_of_not_asks {alert : SessionAlert I} (h : alert.asks = false) :
    alert.answerable valid = true := by
  cases alert with
  | torrentFinished handle => cases h
  | saveResumeData handle torrentName resumeData => cases h
  | _ => rfl

theorem SessionAlert.GoesOn.answerable {alert : SessionAlert I} {entries : List (Str × I)}
    (h : alert.GoesOn valid entries) : alert.answerable valid = true := by
  cases alert with
  | torrentFinished handle => exact h.elim
  | saveResumeData handle torrentName resumeData => exact h
  | _ => rfl

theorem inReach_of_not_asks {entries : List (Str × I)} {alerts : List (SessionAlert I)}
    (h : ∀ alert ∈ alerts, alert.asks = false) : InReach valid entries alerts := by
  induction alerts with
  | nil => trivial
  | cons alert rest ih =>
    have hrest : ∀ later ∈ rest, later.asks = false :=
      fun later hlater => h later (List.mem_cons_of_mem _ hlater)
    exact ⟨SessionAlert.answerable_of_not_asks (h alert List.mem_cons_self), .inr hrest, ih hrest⟩

section EmitStats

variable {status : List (ListedStatus I)} {p : Nat} {e : Str × I} {st : ListedStatus I}

/-- The position is behind the end. -/
theorem emitStats_behind (hp : status.length ≤ p) (rest : List (Str × I))
    (s : TorrentSession savePath) :
    emitStats savePath valid status p (e :: rest) s = (.stuck, s) := by
  rw [emitStats, List.getElem?_eq_none_iff.mpr hp]

theorem emitStats_invalid (hp : status[p]? = some st) (hvalid : valid e.2 = false)
    (rest : List (Str × I)) (s : TorrentSession savePath) :
    emitStats savePath valid status p (e :: rest) s = (.throw invalidTorrentHandle, s) := by
  rw [emitStats, hp, pathOf, hvalid]
  rfl

theorem emitStats_valid (hp : status[p]? = some st) (hvalid : valid e.2 = true)
    (rest : List (Str × I)) (s : TorrentSession savePath) :
    emitStats savePath valid status p (e :: rest) s = emitStats savePath valid status (p + 1) rest
      { s with performed := s.performed ++ [.xferInternalStats (savePath e.2) st] } := by
  rw [emitStats, hp, pathOf, hvalid]
  rfl

end EmitStats

/-- The statistics are no answers. They are all emitted if there is a status at each position
and each handle is valid. -/
theorem emitStats_spec (valid : I → Bool) (status : List (ListedStatus I)) (p : Nat)
    (entries : List (Str × I)) (s : TorrentSession savePath) :
    ∃ exit new, emitStats savePath valid status p entries s =
        (exit, { s with performed := s.performed ++ new }) ∧
      new.filter Effect.isAnswer = [] ∧
      (exit = .ret () ↔
        entries.length ≤ status.length - p ∧ ∀ e ∈ entries, valid e.2 = true) := by
  induction entries generalizing p s with
  | nil =>
    refine ⟨.ret (), [], ?_, rfl, ?_⟩
    · rw [emitStats, List.append_nil]
      rfl
    · exact iff_of_true rfl ⟨Nat.zero_le _, fun e he => absurd he List.not_mem_nil⟩
  | cons e rest ih =>
    rw [List.forall_mem_cons, List.length_cons]
    cases hp : status[p]? with
    | none =>
      have hlen : status.length ≤ p := List.getElem?_eq_none_iff.mp hp
      refine ⟨.stuck, [], by rw [emitStats_behind hlen, List.append_nil], rfl, ?_⟩
      refine iff_of_false nofun ?_
      rintro ⟨hle, -⟩
      omega
    | some st =>
      have hlt : p < status.length := (List.getElem?_eq_some_iff.mp hp).1
      cases hvalid : valid e.2 with
      | false =>
        refine ⟨_, [], by rw [emitStats_invalid hp hvalid, List.append_nil], rfl, ?_⟩
        exact iff_of_false nofun fun h => Bool.false_ne_true h.2.1
      | true =>
        rcases ih (p + 1)
          { s with performed := s.performed ++ [.xferInternalStats (savePath e.2) st] } with
          ⟨exit, new, hrest, hfilter, hexit⟩
        refine ⟨exit, .xferInternalStats (savePath e.2) st :: new, ?_, hfilter, ?_⟩
        · rw [emitStats_valid hp hvalid, hrest, List.append_assoc]
          rfl
        · rw [hexit]
          constructor
          · rintro ⟨hle, hall⟩
            exact ⟨by omega, rfl, hall⟩
          · rintro ⟨hle, -, hall⟩
            exact ⟨by omega, hall⟩

/-- What one round of the loop does to the session `s`. -/
structure AnswerSpec (valid : I → Bool) (alert : SessionAlert I) (s : TorrentSession savePath)
    (r : Exit Str Leaves × TorrentSession savePath) : Prop where
  answers : r.2.answers = s.answers ++
    if alert.answerable valid = true then alert.due savePath else []
  goesOn : r.1 = .ret .next ↔ alert.GoesOn valid s.ltToHandle.entries
  kept : alert.GoesOn valid s.ltToHandle.entries → r.2.ltToHandle = s.ltToHandle
  removed : ∀ handle, alert = .torrentFinished handle → valid handle = true →
    ∀ e ∈ r.2.ltToHandle.entries, e.1 ≠ savePath handle

theorem answers_append (s : TorrentSession savePath) (m : HandleMap savePath)
    (new : List (Effect I)) :
    (TorrentSession.mk m (s.performed ++ new)).answers =
      s.answers ++ new.filter Effect.isAnswer := List.filter_append ..

/-- An alert that asks for nothing leaves the session as it is. -/
theorem answerSpec_quiet {alert : SessionAlert I} (hasks : alert.asks = false) {leaves : Leaves}
    {s : TorrentSession savePath}
    (hgo : leaves = .next ↔ alert.GoesOn valid s.ltToHandle.entries) :
    AnswerSpec valid alert s (.ret leaves, s) := by
  refine ⟨?_, ?_, fun _ => rfl, ?_⟩
  · rw [due_eq_nil_iff.mpr hasks, ite_self, List.append_nil]
  · rw [← hgo]
    simp
  · rintro handle rfl -
    cases hasks

theorem answerSpec_message {alert : SessionAlert I} (hasks : alert.asks = false) {message : Str}
    {s : TorrentSession savePath}
    (hgo : alert.GoesOn valid s.ltToHandle.entries ↔ message = []) :
    AnswerSpec valid alert s (endsWith savePath message s) := by
  unfold endsWith
  split
  · rename_i hempty
    exact answerSpec_quiet hasks (iff_of_true rfl (hgo.mpr hempty))
  · rename_i hne
    exact answerSpec_quiet hasks (iff_of_false nofun fun h => hne (hgo.mp h))

/-- **One alert.** -/
theorem answerAlert_spec (valid : I → Bool) (alert : SessionAlert I)
    (s : TorrentSession savePath) :
    AnswerSpec valid alert s (answerAlert savePath valid alert s) := by
  cases alert with
  | torrentFinished handle =>
    rw [answerAlert, requestResumeData, pathOf]
    cases hvalid : valid handle with
    | false =>
      refine ⟨?_, iff_of_false nofun id, False.elim, ?_⟩
      · change s.answers = _
        rw [SessionAlert.answerable, hvalid, if_neg Bool.false_ne_true, List.append_nil]
      · rintro _ ⟨rfl⟩ hv
        rw [hvalid] at hv
        cases hv
    | true =>
      refine ⟨?_, iff_of_false nofun id, False.elim, ?_⟩
      · change (TorrentSession.mk (s.ltToHandle.remove (savePath handle))
          (s.performed ++ [.saveResumeData handle] ++ [.remove (savePath handle)])).answers = _
        rw [SessionAlert.answerable, hvalid, if_pos rfl, List.append_assoc, answers_append]
        rfl
      · rintro _ ⟨rfl⟩ -
        exact s.ltToHandle.remove_ne (savePath handle)
  | torrentError => exact answerSpec_quiet rfl (iff_of_false nofun id)
  | saveResumeData handle torrentName resumeData =>
    rw [answerAlert, pathOf]
    cases hvalid : valid handle with
    | false =>
      refine ⟨?_, iff_of_false nofun ?_, fun _ => rfl, fun _ hc => nomatch hc⟩
      · change s.answers = _
        rw [SessionAlert.answerable, hvalid, if_neg Bool.false_ne_true, List.append_nil]
      · rw [SessionAlert.GoesOn, hvalid]
        exact Bool.false_ne_true
    | true =>
      refine ⟨?_, iff_of_true rfl hvalid, fun _ => rfl, fun _ hc => nomatch hc⟩
      rw [SessionAlert.answerable, hvalid, if_pos rfl]
      exact answers_append s s.ltToHandle _
  | stateUpdate status =>
    rw [answerAlert]
    split
    · rename_i hempty
      exact answerSpec_quiet rfl (iff_of_true rfl (.inl hempty))
    · rename_i hne
      rcases emitStats_spec valid status 0 s.ltToHandle.entries s with
        ⟨exit, new, hemit, hfilter, hexit⟩
      have hgo : exit.withValue Leaves.next = .ret .next ↔
          (SessionAlert.stateUpdate status).GoesOn valid s.ltToHandle.entries :=
        (Exit.withValue_eq_ret.trans hexit).trans (or_iff_right hne).symm
      rw [Proc.state_bind, Proc.bind_pure_value, hemit]
      refine ⟨?_, hgo, fun _ => rfl, fun _ hc => nomatch hc⟩
      change _ = s.answers ++ []
      rw [answers_append, hfilter]
  | torrentRemoved message => exact answerSpec_message rfl Iff.rfl
  | torrentDeleted message => exact answerSpec_message rfl Iff.rfl
  | torrentPaused message => exact answerSpec_message rfl Iff.rfl
  | other => exact answerSpec_quiet rfl (iff_of_true rfl trivial)

/-- Behind an alert that lets the loop go on, the rest of the batch is to be answered. -/
theorem AnswerSpec.answered_cons {alert : SessionAlert I} {rest : List (SessionAlert I)}
    {s s' : TorrentSession savePath} {r : Exit Str Leaves × TorrentSession savePath}
    (h : AnswerSpec valid alert s r) (hgo : alert.GoesOn valid s.ltToHandle.entries) :
    Answered (alert :: rest) s s' ↔ Answered rest r.2 s' := by
  have hanswers := h.answers
  rw [if_pos hgo.answerable] at hanswers
  have hfinished : ∀ handle, .torrentFinished handle ∈ alert :: rest ↔
      .torrentFinished handle ∈ rest := by
    intro handle
    rw [List.mem_cons, or_iff_right]
    rintro rfl
    exact hgo
  constructor
  · intro hanswered
    refine ⟨?_, fun handle hin => hanswered.removed handle ((hfinished handle).mpr hin)⟩
    rw [hanswered.answers, hanswers, List.flatMap_cons, List.append_assoc]
  · intro hanswered
    refine ⟨?_, fun handle hin => hanswered.removed handle ((hfinished handle).mp hin)⟩
    rw [hanswered.answers, hanswers, List.flatMap_cons, List.append_assoc]

/-- Behind an alert that leaves the batch, nothing may be left to answer. -/
theorem AnswerSpec.answered_last {alert : SessionAlert I} {rest : List (SessionAlert I)}
    {s : TorrentSession savePath} {r : Exit Str Leaves × TorrentSession savePath}
    (h : AnswerSpec valid alert s r) :
    Answered (alert :: rest) s r.2 ↔
      alert.answerable valid = true ∧ ∀ later ∈ rest, later.asks = false := by
  have hanswers := h.answers
  constructor
  · intro hanswered
    have hdue := hanswered.answers
    rw [hanswers, List.append_cancel_left_eq, List.flatMap_cons] at hdue
    cases hcan : alert.answerable valid with
    | true =>
      rw [if_pos hcan, List.self_eq_append_right] at hdue
      exact ⟨rfl, flatMap_due_eq_nil_iff.mp hdue⟩
    | false =>
      rw [hcan, if_neg Bool.false_ne_true, eq_comm, List.append_eq_nil_iff] at hdue
      rw [SessionAlert.answerable_of_not_asks (due_eq_nil_iff.mp hdue.1)] at hcan
      cases hcan
  · rintro ⟨hcan, hrest⟩
    refine ⟨?_, ?_⟩
    · rw [hanswers, if_pos hcan, List.flatMap_cons, flatMap_due_eq_nil_iff.mpr hrest,
        List.append_nil]
    · intro handle hin
      rcases List.mem_cons.mp hin with rfl | hlater
      · exact h.removed handle rfl hcan
      · cases hrest _ hlater

/-- An alert hands over to the next one. -/
theorem answerAlerts_goesOn {alert : SessionAlert I} {s s₁ : TorrentSession savePath}
    (h : answerAlert savePath valid alert s = (.ret .next, s₁)) (rest : List (SessionAlert I)) :
    answerAlerts savePath valid (alert :: rest) s = answerAlerts savePath valid rest s₁ := by
  rw [answerAlerts, Proc.bind_ret h]

/-- An alert leaves the batch, and the rest of it is dropped. -/
theorem answerAlerts_leaves {alert : SessionAlert I} {s s₁ : TorrentSession savePath}
    {exit : Exit Str Leaves} (h : answerAlert savePath valid alert s = (exit, s₁))
    (hne : exit ≠ .ret .next) (rest : List (SessionAlert I)) :
    answerAlerts savePath valid (alert :: rest) s = (exit, s₁) := by
  rw [answerAlerts]
  cases exit with
  | ret leaves =>
    rw [Proc.bind_ret h]
    cases leaves with
    | next => exact absurd rfl hne
    | reset => rfl
    | done => rfl
  | throw what => rw [Proc.bind_throw h]
  | stuck => rw [Proc.bind_stuck h]

/-- **One batch.** All its alerts are answered exactly if they are in reach. -/
theorem answered_iff (valid : I → Bool) (alerts : List (SessionAlert I))
    (s : TorrentSession savePath) :
    Answered alerts s (answerAlerts savePath valid alerts s).2 ↔
      InReach valid s.ltToHandle.entries alerts := by
  induction alerts generalizing s with
  | nil =>
    exact iff_of_true ⟨(List.append_nil _).symm, fun _ h => absurd h List.not_mem_nil⟩ trivial
  | cons alert rest ih =>
    have hspec := answerAlert_spec valid alert s
    rcases hanswer : answerAlert savePath valid alert s with ⟨exit, s₁⟩
    rw [hanswer] at hspec
    rw [InReach]
    by_cases hgo : alert.GoesOn valid s.ltToHandle.entries
    · -- the rest starts with the same map
      have hrest := ih s₁
      rw [hspec.kept hgo] at hrest
      have hnext : exit = .ret .next := hspec.goesOn.mpr hgo
      rw [hnext] at hanswer
      rw [answerAlerts_goesOn hanswer, ← hrest]
      refine (hspec.answered_cons hgo).trans ?_
      exact ⟨fun h => ⟨hgo.answerable, .inl hgo, h⟩, fun h => h.2.2⟩
    · rw [answerAlerts_leaves hanswer fun hnext => hgo (hspec.goesOn.mp hnext)]
      refine hspec.answered_last.trans ?_
      exact ⟨fun h => ⟨h.1, .inr h.2, inReach_of_not_asks h.2⟩,
        fun h => ⟨h.1, h.2.1.resolve_left hgo⟩⟩

end Answers

/-! ## Runs -/

/-- The alerts of the batch that is popped are answered. -/
def AnswersAll (s : SessionLoop savePath) : SessionAction I → Prop
  | .round r => s.running = true →
    Answered r.alerts s.session (answerAlerts savePath r.valid r.alerts s.session).2
  | .insert _ => True

/-- The alerts of the batch that is popped are in reach. -/
def ReachesAll (s : SessionLoop savePath) : SessionAction I → Prop
  | .round r => s.running = true → InReach r.valid s.session.ltToHandle.entries r.alerts
  | .insert _ => True

/-- **No alert is dropped exactly in the runs of such batches**, whatever the map is at the
beginning. -/
theorem answers_iff (s : SessionLoop savePath) (as : List (SessionAction I)) :
    EachStep SessionLoop.step AnswersAll s as ↔ EachStep SessionLoop.step ReachesAll s as := by
  refine eachStep_congr ?_ s as
  intro s a
  cases a with
  | round r => exact imp_congr_right fun _ => answered_iff r.valid r.alerts s.session
  | insert handle => exact Iff.rfl

/-- An empty map. -/
def HandleMap.empty : HandleMap savePath := ⟨[], List.Pairwise.nil, nofun⟩

/-- The loop with both of the two torrents. -/
def twoLoop : SessionLoop fun i => (twoTorrents i).downDest :=
  ⟨⟨(HandleMap.empty.insert false).insert true, []⟩, 0, true⟩

/-- One of them has finished, and the resume data of the other one is ready. -/
def finishedFirst : Round Bool :=
  ⟨[.torrentFinished false, .saveResumeData true "b".toList "de".toList], fun _ => true, 0, 0⟩

/-- The resume data is not written. -/
theorem answers_dropped :
    (twoLoop.round finishedFirst).session.performed =
        [.saveResumeData false, .remove "/dl/a".toList] ∧
      ¬ EachStep SessionLoop.step AnswersAll twoLoop [.round finishedFirst] := by
  refine ⟨by decide +kernel, ?_⟩
  rintro ⟨hround, -⟩
  have hanswers := (hround rfl).answers
  exact absurd hanswers (by decide +kernel)

end FyreDL.Torrent
