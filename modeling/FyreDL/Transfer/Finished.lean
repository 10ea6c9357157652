import FyreDL.Gui.DlFinished
import FyreDL.Transfer.Stopping

/-!
# FyreDL.Transfer.Finished — which transfers become completed

The transfers and the window together. `fileStream` sends `sendDlFinished` from its own
thread, so the signal waits in a queue until the window runs `recvDlFinished`. In between
the window may do anything to its table and its database.

* A signal does not carry the result of the transfer. The queue of the model keeps the
  result of the `CURLMSG_DONE` message beside each signal, and so does the list of the
  signals that a file was shown as completed for; nothing in the program reads either.
* `completed_successful_iff` — whatever the window does, only successful transfers become
  completed, exactly if no message that `fileStream` handles carries another result.
-/

namespace FyreDL.Transfer

open Lib Lib.Kv Store Gui

/-! ## The two parts -/

/-- A `sendDlFinished`, with the result of the transfer it is about. -/
structure Sent where
  status : DlStatusMsg
  result : CurlCode
deriving DecidableEq, Repr

/-- The table and the database of the window. -/
structure Window where
  rows : List DlRow
  db : Db

/-- What a `recvDlFinished` meets. -/
structure Reception where
  digest : Digest
  disk : Str → DiskFile
  order : IterOrder Entry
  now : Int

/-- The transfers, the signals on their way, the window, and the signals that a file was
shown as completed for. -/
structure System where
  engine : CurlMulti
  inFlight : List Sent
  window : Window
  completed : List Sent

def System.start : System := ⟨CurlMulti.start, [], ⟨[], emptyDb⟩, []⟩

inductive SystemAction where
  | transfer (a : Action)
  | deliver (reception : Reception)
  | window (w : Window)

/-- The signal of a `fileStream`, with the result in the message that it read. -/
def sentByFileStream (ehOrder : IterOrder (Uuid × CurlInit))
    (order : IterOrder (Uuid × ActiveDownloads)) (cm : CurlMulti) : List Sent :=
  match cm.multi.msgs, (fileStream ehOrder order cm).2 with
  | msg :: _, .finished status => [⟨status, msg.result⟩]
  | _, _ => []

/-- The signals that an action of the transfers sends. -/
def sentBy (cm : CurlMulti) : Action → List Sent
  | .fileStream ehOrder order => sentByFileStream ehOrder order cm
  | .newDl _ _ _ _ => []
  | .transferEnds _ => []
  | .stopDl _ _ _ => []

/-- The window after `recvDlFinished`. -/
def receive (reception : Reception) (status : DlStatusMsg) (w : Window) : Window :=
  match run (recvDlFinished reception.digest reception.disk reception.order reception.now w.rows
      status) w.db with
  | (.ret (rows, _), db) => ⟨rows, db⟩
  | (_, db) => ⟨w.rows, db⟩

/-- The rows that show the file as completed. -/
def shownCompleted (fileLoc : Str) (rows : List DlRow) : Nat :=
  rows.countP fun row =>
    row.destination = fileLoc ∧ convDlStatStringToEnum row.status = .completed

def System.step (sys : System) : SystemAction → System
  | .transfer a =>
    { sys with
      engine := Transfer.step sys.engine a
      inFlight := sys.inFlight ++ sentBy sys.engine a }
  | .deliver reception =>
    match sys.inFlight with
    | [] => sys
    | sent :: rest =>
      let w := receive reception sent.status sys.window
      { sys with
        inFlight := rest
        window := w
        completed :=
          if shownCompleted sent.status.fileLoc sys.window.rows <
              shownCompleted sent.status.fileLoc w.rows then sys.completed ++ [sent]
          else sys.completed }
  | .window w => { sys with window := w }

/-- The actions of the transfers in a run. -/
def transfers (as : List SystemAction) : List Action :=
  as.filterMap fun
    | .transfer a => some a
    | .deliver _ => none
    | .window _ => none

/-- Whatever became completed was successful. -/
def OnlySuccessful (sys : System) : Prop := ∀ sent ∈ sys.completed, sent.result = .ok

/-! ## The transfers -/

/-- A message that `fileStream` handles is the one of a successful transfer. -/
def SignalsSuccess (cm : CurlMulti) : Action → Prop
  | .fileStream ehOrder order =>
    ∀ msg conn entry, Handles ehOrder order cm msg conn entry → msg.result = .ok
  | .newDl _ _ _ _ => True
  | .transferEnds _ => True
  | .stopDl _ _ _ => True

/-- All signals of a run of the transfers. -/
def sentAlong : CurlMulti → List Action → List Sent
  | _, [] => []
  | cm, a :: as => sentBy cm a ++ sentAlong (step cm a) as

theorem signalsSuccess_iff (cm : CurlMulti) (a : Action) :
    SignalsSuccess cm a ↔ ∀ sent ∈ sentBy cm a, sent.result = .ok := by
  cases a with
  | newDl env url fileLoc resumeDl =>
    -- only `fileStream` sends signals
    constructor
    · intro _ sent hsent
      exact absurd hsent List.not_mem_nil
    · intro _
      trivial
  | transferEnds msg =>
    constructor
    · intro _ sent hsent
      exact absurd hsent List.not_mem_nil
    · intro _
      trivial
  | stopDl ehOrder order fileLoc =>
    constructor
    · intro _ sent hsent
      exact absurd hsent List.not_mem_nil
    · intro _
      trivial
  | fileStream ehOrder order =>
    change (∀ msg conn entry, Handles ehOrder order cm msg conn entry → msg.result = .ok) ↔
      ∀ sent ∈ sentByFileStream ehOrder order cm, sent.result = .ok
    unfold sentByFileStream
    rcases fileStream_cases ehOrder order cm with
      ⟨hnot, -, hunfinished⟩ | ⟨msg, conn, entry, hmsg, hrun⟩
    · constructor
      · intro _ sent hsent
        split at hsent
        · rename_i status _ hfinished
          exact absurd hfinished (hunfinished status)
        · exact absurd hsent List.not_mem_nil
      · intro _ msg conn entry hmsg
        exact absurd ⟨msg, conn, entry, hmsg⟩ hnot
    · rw [hrun]
      -- the signal is about the message in front of the queue
      cases hmsgs : cm.multi.msgs with
      | nil =>
        have hhead := hmsg.1
        rw [hmsgs] at hhead
        cases hhead
      | cons msg' msgs =>
        have hfront : ∀ m, cm.multi.msgs.head? = some m → m = msg' := by
          intro m hm
          rw [hmsgs, List.head?_cons, Option.some.injEq] at hm
          exact hm.symm
        dsimp only
        rw [List.forall_mem_singleton]
        constructor
        · intro hall
          have hok := hall msg conn entry hmsg
          rwa [hfront msg hmsg.1] at hok
        · intro hok m conn' entry' hm
          rw [hfront m hm.1]
          exact hok

theorem eachStep_signalsSuccess_iff (cm : CurlMulti) (as : List Action) :
    EachStep step SignalsSuccess cm as ↔ ∀ sent ∈ sentAlong cm as, sent.result = .ok := by
  induction as generalizing cm with
  | nil =>
    constructor
    · intro _ sent hsent
      exact absurd hsent List.not_mem_nil
    · intro _
      trivial
  | cons a as ih =>
    rw [EachStep, signalsSuccess_iff, ih, sentAlong, List.forall_mem_append]

/-- The transfers run as they do alone. -/
theorem run_transfers (as : List Action) (sys : System) :
    (as.map SystemAction.transfer).foldl System.step sys =
      { sys with
        engine := as.foldl step sys.engine
        inFlight := sys.inFlight ++ sentAlong sys.engine as } := by
  induction as generalizing sys with
  | nil =>
    rw [sentAlong, List.append_nil]
    rfl
  | cons a as ih =>
    rw [List.map_cons, List.foldl_cons, ih, sentAlong, ← List.append_assoc]
    rfl

/-! ## The window -/

/-- The table of one row that shows a file as downloading. -/
def downloadingRow (fileLoc : Str) : DlRow := ⟨fileLoc, convDlStatToString .downloading, []⟩

/-- An empty file. -/
def emptyReception : Reception := ⟨fun _ _ => [], fun _ => .content [], IterOrder.insertion _, 0⟩

/-- A signal for a file that is shown as downloading makes it completed. -/
theorem receive_downloading (status : DlStatusMsg) :
    (receive emptyReception status ⟨[downloadingRow status.fileLoc], emptyDb⟩).rows =
      [finishedRow status (downloadingRow status.fileLoc)] := by
  -- the window finds the row by its file and its status
  have hrow : isFinishedRow status (downloadingRow status.fileLoc) = true := by
    apply decide_eq_true
    constructor
    · rfl
    · exact convDlStatStringToEnum_toString .downloading
  have hextract : run (extractDownloadIds false) emptyDb = (.ret [], emptyDb) := rfl
  have hinfos := run_readCurlItems (IterOrder.insertion Entry) hextract
    fun e he => absurd he List.not_mem_nil
  rcases @run_recvDlFinished emptyDb emptyReception.digest emptyReception.disk status [] []
    (IterOrder.insertion Entry) _ hextract hinfos rfl 0 [downloadingRow status.fileLoc]
    ⟨_, List.mem_cons_self, hrow⟩ with ⟨id, items, -, hrun⟩
  unfold receive
  rw [show run (recvDlFinished emptyReception.digest emptyReception.disk emptyReception.order
    emptyReception.now [downloadingRow status.fileLoc] status) emptyDb = _ from hrun]
  dsimp only
  rw [markFinished, if_pos hrow]

/-- The window can be such that every signal on its way makes its file completed. -/
theorem deliver_all (sents : List Sent) (sys : System) (h : sys.inFlight = sents) :
    ∃ as, transfers as = [] ∧ (as.foldl System.step sys).completed = sys.completed ++ sents := by
  induction sents generalizing sys with
  | nil => exact ⟨[], rfl, (List.append_nil _).symm⟩
  | cons sent rest ih =>
    -- the file is shown as downloading when its signal arrives
    set before : Window := ⟨[downloadingRow sent.status.fileLoc], emptyDb⟩ with hbefore
    have hreceive := receive_downloading sent.status
    have hgrows : shownCompleted sent.status.fileLoc before.rows <
        shownCompleted sent.status.fileLoc
          (receive emptyReception sent.status before).rows := by
      rw [hbefore, hreceive, shownCompleted, shownCompleted, List.countP_singleton,
        List.countP_singleton]
      have hno :
          convDlStatStringToEnum (downloadingRow sent.status.fileLoc).status ≠ .completed := by
        rw [downloadingRow, convDlStatStringToEnum_toString]
        decide
      have hyes : convDlStatStringToEnum (convDlStatToString .completed) = .completed :=
        convDlStatStringToEnum_toString .completed
      rw [if_neg (by simp [hno]), if_pos (by simp [finishedRow, downloadingRow, hyes])]
      exact Nat.zero_lt_one
    set sys₁ : System :=
      { sys with
        inFlight := rest
        window := receive emptyReception sent.status before
        completed := sys.completed ++ [sent] } with hsys₁
    have hstep :
        System.step (System.step sys (.window before)) (.deliver emptyReception) = sys₁ := by
      rw [System.step, System.step, h]
      dsimp only
      rw [if_pos hgrows]
    rcases ih sys₁ rfl with ⟨as, hnone, hcompleted⟩
    refine ⟨.window before :: .deliver emptyReception :: as, hnone, ?_⟩
    rw [List.foldl_cons, List.foldl_cons, hstep, hcompleted, hsys₁, List.append_assoc]
    rfl

/-! ## Runs -/

/-- Everything on its way and everything completed was successful. -/
def AllSuccessful (sys : System) : Prop :=
  (∀ sent ∈ sys.inFlight, sent.result = .ok) ∧ OnlySuccessful sys

theorem allSuccessful_step {sys : System} (h : AllSuccessful sys) :
    (∀ a, SignalsSuccess sys.engine a → AllSuccessful (sys.step (.transfer a))) ∧
      (∀ reception, AllSuccessful (sys.step (.deliver reception))) ∧
      ∀ w, AllSuccessful (sys.step (.window w)) := by
  rcases h with ⟨hflight, hcompleted⟩
  refine ⟨?_, ?_, ?_⟩
  · intro a hsuccess
    constructor
    · intro sent hsent
      -- the window can only complete the file of the signal that it takes
      rcases List.mem_append.mp hsent with hold | hnew
      · exact hflight sent hold
      · exact (signalsSuccess_iff sys.engine a).mp hsuccess sent hnew
    · exact hcompleted
  · intro reception
    rw [System.step]
    split
    · exact ⟨hflight, hcompleted⟩
    · rename_i sent rest hsent
      rw [hsent, List.forall_mem_cons] at hflight
      constructor
      · exact hflight.2
      · intro s hs
        dsimp only at hs
        split at hs
        · rcases List.mem_append.mp hs with hold | hin
          · exact hcompleted s hold
          · rw [List.mem_singleton.mp hin]
            exact hflight.1
        · exact hcompleted s hs
  · intro w
    exact ⟨hflight, hcompleted⟩

theorem allSuccessful_run (as : List SystemAction) {sys : System} (h : AllSuccessful sys)
    (hsteps : EachStep step SignalsSuccess sys.engine (transfers as)) :
    AllSuccessful (as.foldl System.step sys) := by
  induction as generalizing sys with
  | nil => exact h
  | cons a as ih =>
    rcases allSuccessful_step h with ⟨htransfer, hdeliver, hwindow⟩
    cases a with
    | transfer a => exact ih (htransfer a hsteps.1) hsteps.2
    | deliver reception =>
      have hengine : (sys.step (.deliver reception)).engine = sys.engine := by
        rw [System.step]
        split
        · rfl
        · rfl
      exact ih (hdeliver reception) (hengine ▸ hsteps)
    | window w => exact ih (hwindow w) hsteps

/-- **Only successful transfers become completed**, whatever the window does and in
whatever order, exactly if each message that `fileStream` handles in the run of the
transfers is the one of a successful transfer. -/
theorem completed_successful_iff (es : List Action) :
    (∀ as, transfers as = es → OnlySuccessful (as.foldl System.step System.start)) ↔
      EachStep step SignalsSuccess CurlMulti.start es := by
  constructor
  · intro hall
    rw [eachStep_signalsSuccess_iff]
    intro sent hsent
    -- first all transfers, then every signal while its file is shown as downloading
    set sys := (es.map SystemAction.transfer).foldl System.step System.start with hsys
    have hflight : sys.inFlight = sentAlong CurlMulti.start es := by
      rw [hsys, run_transfers]
      rfl
    rcases deliver_all _ sys hflight with ⟨as, hnone, hcompleted⟩
    have htransfers : transfers (es.map SystemAction.transfer ++ as) = es := by
      rw [transfers, List.filterMap_append, ← transfers, ← transfers, hnone, List.append_nil,
        transfers, List.filterMap_map]
      exact List.filterMap_some
    have honly := hall _ htransfers
    rw [List.foldl_append, ← hsys] at honly
    apply honly
    rw [hcompleted]
    exact List.mem_append_right _ hsent
  · intro hsteps as has
    have hstart : AllSuccessful System.start :=
      ⟨fun _ h => absurd h List.not_mem_nil, fun _ h => absurd h List.not_mem_nil⟩
    exact (allSuccessful_run as hstart (has ▸ hsteps)).2

/-- A transfer that times out while its file is shown as downloading. -/
def timedOutRun : List SystemAction :=
  [.window ⟨sampleRows, startedDb⟩,
   .transfer (.newDl (sampleOutside 1 2) sampleUrl sampleFile false),
   .transfer (.transferEnds ⟨0, .operationTimedout, sampleInfo.extInfo.contentLength⟩),
   .transfer (.fileStream (IterOrder.insertion _) (IterOrder.insertion _)),
   .deliver ⟨sampleDigest, sampleDisk, IterOrder.insertion _, 9⟩]

/-- What `fileStream` says of it. -/
def timedOutStatus : DlStatusMsg := ⟨sampleInfo.extInfo.contentLength, sampleUrl, sampleFile⟩

/-- The file is stored and shown as completed. -/
theorem timedOutRun_completed :
    (timedOutRun.foldl System.step System.start).completed =
        [⟨timedOutStatus, .operationTimedout⟩] ∧
      ((timedOutRun.foldl System.step System.start).window.rows.map DlRow.status) =
        [convDlStatToString .completed] ∧
      (run (readCurlItems (IterOrder.insertion Entry))
        (timedOutRun.foldl System.step System.start).window.db).1 =
        .ret [{ startedInfo with dlStatus := .completed, compltTimestamp := 9 }] ∧
      ¬ OnlySuccessful (timedOutRun.foldl System.step System.start) := by
  have hcompleted : (timedOutRun.foldl System.step System.start).completed =
      [⟨timedOutStatus, .operationTimedout⟩] := by decide +kernel
  refine ⟨hcompleted, by decide +kernel, by decide +kernel, ?_⟩
  intro honly
  have hok := honly ⟨timedOutStatus, .operationTimedout⟩
    (hcompleted ▸ List.mem_cons_self)
  exact absurd hok (by decide)

end FyreDL.Transfer
