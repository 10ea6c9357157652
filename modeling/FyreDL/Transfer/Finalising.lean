import FyreDL.Transfer.Stopping

/-!
# FyreDL.Transfer.Finalising — transfers that end together

When several transfers have ended by the time that `fileStream` reads its messages,
libcurl holds one `CURLMSG_DONE` message for each of them. The loop over the messages
returns behind the first one.

* `Enrolled` — the transfers have different files, each has its entries in both maps, and
  each message is about another one of them.
* `Finalised` — every transfer with a message is taken out and announced, and nothing else.
* `finalised_iff` — a `fileStream` does this exactly if there is one message at most.
-/

namespace FyreDL.Transfer

open Lib

/-- Transfers with different files, and a queue of messages about some of them. -/
structure Enrolled (cm : CurlMulti) : Prop where
  monitored : Monitored cm.transferMonitoring
  registered : Registered cm
  files : (cm.ehVec.map fun conn => conn.2.fileLoc).Nodup
  entries : ∀ conn ∈ cm.ehVec, ∃ entry ∈ cm.transferMonitoring, entry.2.fileDest = conn.2.fileLoc
  once : (cm.multi.msgs.map CurlMsg.easy).Nodup

/-- What is to be announced for a message. -/
def announced (cm : CurlMulti) (msg : CurlMsg) : Option DlStatusMsg :=
  (cm.ehVec.find? fun conn => conn.2.easy.number = msg.easy).map fun conn =>
    ⟨msg.contentLength, conn.2.url, conn.2.fileDest⟩

/-- The `sendDlFinished` that a `fileStream` emits. -/
def FileStream.signals : FileStream → List DlStatusMsg
  | .finished status => [status]
  | .idle => []
  | .failed _ => []

/-- The transfer is in neither map, and its handle is not attached. -/
def Gone (cm : CurlMulti) (conn : Uuid × CurlInit) : Prop :=
  (∀ h ∈ cm.multi.attached, h.number ≠ conn.2.easy.number) ∧ conn ∉ cm.ehVec ∧
    ∀ entry ∈ cm.transferMonitoring, entry.2.fileDest ≠ conn.2.fileLoc

/-- Every transfer with a message is gone, counted off and announced once. -/
structure Finalised (cm : CurlMulti) (r : CurlMulti × FileStream) : Prop where
  gone : ∀ msg ∈ cm.multi.msgs, ∀ conn ∈ cm.ehVec, conn.2.easy.number = msg.easy → Gone r.1 conn
  counted : r.1.activeDownloads = cm.activeDownloads - Int16.ofNat cm.multi.msgs.length
  sent : r.2.signals.Perm (cm.multi.msgs.filterMap (announced cm))

section Finalising

variable {cm : CurlMulti}

/-- The transfer of a message. -/
theorem Enrolled.conn (h : Enrolled cm) {msg : CurlMsg} (hmsg : msg ∈ cm.multi.msgs) :
    ∃ conn ∈ cm.ehVec, conn.2.easy.number = msg.easy := by
  rcases h.registered.messages msg hmsg with ⟨easy, hattached, hnumber⟩
  rcases h.registered.attached easy hattached with ⟨conn, hconn, rfl⟩
  exact ⟨conn, hconn, hnumber⟩

/-- Whichever entries are met first, the message in front has its transfer. -/
theorem Enrolled.handles (h : Enrolled cm) (ehOrder : IterOrder (Uuid × CurlInit))
    (order : IterOrder (Uuid × ActiveDownloads)) {msg : CurlMsg} {msgs : List CurlMsg}
    (hmsgs : cm.multi.msgs = msg :: msgs) :
    ∃ conn entry, Handles ehOrder order cm msg conn entry := by
  have hmem : msg ∈ cm.multi.msgs := hmsgs ▸ List.mem_cons_self
  rcases h.conn hmem with ⟨conn, hconn, hnumber⟩
  cases hfind : findEasy ehOrder msg.easy cm with
  | none => exact absurd (decide_eq_true hnumber) (ehOrder.find?_none hfind conn hconn)
  | some conn' =>
    rcases h.entries conn' (findEasy_some hfind).1 with ⟨entry, hentry, hfile⟩
    cases hdl : findDl order conn'.2.fileLoc cm with
    | none => exact absurd hfile (findDl_none hdl entry hentry)
    | some entry' => exact ⟨conn', entry', by rw [hmsgs]; rfl, hfind, hdl⟩

/-- The transfer that is taken out is gone. -/
theorem Enrolled.gone (h : Enrolled cm) {conn : Uuid × CurlInit}
    {entry : Uuid × ActiveDownloads} (hentry : entry ∈ cm.transferMonitoring)
    (hfile : entry.2.fileDest = conn.2.fileLoc) : Gone (takenOut cm conn entry) conn := by
  refine ⟨fun e he => (mem_removeHandle.mp he).2, fun hin => (mem_eraseKey.mp hin).2 rfl, ?_⟩
  intro other hother hsame
  rcases mem_eraseKey.mp hother with ⟨hmem, hkey⟩
  exact hkey (congrArg Prod.fst (h.monitored.eq_of_file hmem hentry (hsame.trans hfile.symm)))

theorem announced_eq (h : Enrolled cm) {msg : CurlMsg} {conn : Uuid × CurlInit}
    (hconn : conn ∈ cm.ehVec) (hnumber : conn.2.easy.number = msg.easy) :
    announced cm msg = some ⟨msg.contentLength, conn.2.url, conn.2.fileDest⟩ := by
  unfold announced
  cases hfind : cm.ehVec.find? fun conn => conn.2.easy.number = msg.easy with
  | none => exact absurd (decide_eq_true hnumber) (List.find?_eq_none.mp hfind conn hconn)
  | some conn' =>
    have hnumber' : conn'.2.easy.number = msg.easy := by simpa using List.find?_some hfind
    rw [h.registered.eq_of_easy (List.mem_of_find?_eq_some hfind) hconn
      (hnumber'.trans hnumber.symm)]
    rfl

/-- **Transfers that end together** are all finalised exactly if there is one at most. -/
theorem finalised_iff (h : Enrolled cm) (ehOrder : IterOrder (Uuid × CurlInit))
    (order : IterOrder (Uuid × ActiveDownloads)) :
    Finalised cm (fileStream ehOrder order cm) ↔ cm.multi.msgs.length ≤ 1 := by
  cases hmsgs : cm.multi.msgs with
  | nil =>
    rw [fileStream_nil ehOrder order cm hmsgs]
    refine iff_of_true ⟨?_, ?_, ?_⟩ (Nat.zero_le 1)
    · intro msg hmsg
      rw [hmsgs] at hmsg
      exact absurd hmsg List.not_mem_nil
    · rw [hmsgs]
      exact (Int16.sub_zero _).symm
    · rw [hmsgs]
      exact List.Perm.refl []
  | cons msg msgs =>
    rcases fileStream_cases ehOrder order cm with
      ⟨hnone, -⟩ | ⟨msg', conn, entry, ⟨hhead, hconn, hentry⟩, hrun⟩
    · rcases h.handles ehOrder order hmsgs with ⟨conn, entry, hhandles⟩
      exact absurd ⟨msg, conn, entry, hhandles⟩ hnone
    obtain rfl : msg' = msg := by
      rw [hmsgs, List.head?_cons, Option.some.injEq] at hhead
      exact hhead.symm
    rcases findEasy_some hconn with ⟨hmem, hnumber⟩
    rcases findDl_some hentry with ⟨hfound, hfile⟩
    rw [hrun]
    cases msgs with
    | nil =>
      refine iff_of_true ⟨?_, ?_, ?_⟩ (Nat.le_refl 1)
      · intro m hm c hc hsame
        rw [hmsgs, List.mem_singleton] at hm
        obtain rfl : c = conn :=
          h.registered.eq_of_easy hc hmem (hsame.trans (hm ▸ hnumber.symm))
        exact h.gone hfound hfile
      · rw [hmsgs]
        rfl
      · rw [hmsgs, List.filterMap_cons, announced_eq h hmem hnumber]
        exact List.Perm.refl _
    | cons next rest =>
      refine iff_of_false ?_ (by simp)
      intro hfinal
      -- the transfer of the next message is another one, and stays
      have hnext : next ∈ cm.multi.msgs := by simp [hmsgs]
      have hother : msg'.easy ≠ next.easy := by
        have honce := h.once
        rw [hmsgs, List.map_cons, List.map_cons, List.nodup_cons, List.mem_cons, not_or] at honce
        exact honce.1.1
      rcases h.conn hnext with ⟨conn', hconn', hnumber'⟩
      apply (hfinal.gone next hnext conn' hconn' hnumber').2.1
      refine mem_eraseKey.mpr ⟨hconn', fun hkey => hother ?_⟩
      rw [← hnumber, ← hnumber', List.inj_on_of_nodup_map h.registered.keys hconn' hmem hkey]

end Finalising

def secondFile : Str := "/dl/b.iso".toList

/-- Two downloads are started, and the first of them ends. -/
def oneEnded : List Action :=
  [.newDl (sampleOutside 1 2) sampleUrl sampleFile false,
   .newDl (sampleOutside 3 4) sampleUrl secondFile false,
   .transferEnds ⟨0, .ok, 10⟩]

/-- The second one ends in the same round. -/
def bothEnded : List Action := oneEnded ++ [.transferEnds ⟨1, .ok, 20⟩]

/-- What every run keeps does not have to be asked for. -/
theorem enrolled_run {as : List Action}
    (hfiles : ((as.foldl step CurlMulti.start).ehVec.map fun conn => conn.2.fileLoc).Nodup)
    (hentries : ∀ conn ∈ (as.foldl step CurlMulti.start).ehVec,
      ∃ entry ∈ (as.foldl step CurlMulti.start).transferMonitoring,
        entry.2.fileDest = conn.2.fileLoc)
    (honce : ((as.foldl step CurlMulti.start).multi.msgs.map CurlMsg.easy).Nodup) :
    Enrolled (as.foldl step CurlMulti.start) where
  monitored := @run_invariant_always _ _ step (fun cm => Monitored cm.transferMonitoring)
    step_monitored _ monitored_start as
  registered := run_invariant_always step_registered tracked_start.registered as
  files := hfiles
  entries := hentries
  once := honce

/-- One of two transfers has ended. -/
theorem finalised_oneEnded :
    Finalised (oneEnded.foldl step CurlMulti.start)
        (fileStream (IterOrder.insertion _) (IterOrder.insertion _)
          (oneEnded.foldl step CurlMulti.start)) ↔
      (oneEnded.foldl step CurlMulti.start).multi.msgs.length ≤ 1 :=
  finalised_iff (enrolled_run (by decide +kernel) (by decide +kernel) (by decide +kernel)) _ _

/-- Both have ended, and the second one stays. -/
theorem finalised_bothEnded :
    Enrolled (bothEnded.foldl step CurlMulti.start) ∧
      (bothEnded.foldl step CurlMulti.start).multi.msgs.map CurlMsg.easy = [0, 1] ∧
      ((fileStream (IterOrder.insertion _) (IterOrder.insertion _)
          (bothEnded.foldl step CurlMulti.start)).1.ehVec.map fun conn => conn.2.fileLoc) =
        [secondFile] ∧
      ¬ Finalised (bothEnded.foldl step CurlMulti.start)
        (fileStream (IterOrder.insertion _) (IterOrder.insertion _)
          (bothEnded.foldl step CurlMulti.start)) := by
  have henrolled : Enrolled (bothEnded.foldl step CurlMulti.start) :=
    enrolled_run (by decide +kernel) (by decide +kernel) (by decide +kernel)
  have hmsgs : (bothEnded.foldl step CurlMulti.start).multi.msgs.map CurlMsg.easy = [0, 1] := by
    decide +kernel
  have hrest : ((fileStream (IterOrder.insertion _) (IterOrder.insertion _)
      (bothEnded.foldl step CurlMulti.start)).1.ehVec.map fun conn => conn.2.fileLoc) =
        [secondFile] := by decide +kernel
  refine ⟨henrolled, hmsgs, hrest, ?_⟩
  intro hfinal
  have hsent : (fileStream (IterOrder.insertion _) (IterOrder.insertion _)
      (bothEnded.foldl step CurlMulti.start)).2.signals.length = 1 := by decide +kernel
  have hmissing : ((bothEnded.foldl step CurlMulti.start).multi.msgs.filterMap
      (announced (bothEnded.foldl step CurlMulti.start))).length = 2 := by decide +kernel
  have hlength := hfinal.sent.length_eq
  rw [hsent, hmissing] at hlength
  cases hlength

end FyreDL.Transfer
