import FyreDL.Transfer.Counting

/-!
# FyreDL.Transfer.Stopping — what a stop detaches

`recvStopDl` looks for the easy handle of a file in `eh_vec`, by the path of the file, and
detaches it. It leaves the entry where it is, so after the download has been resumed there
are two entries for the file, and which one is met first depends on the order of the map.

* `Followed`: at most one handle of a file is attached, and the file is then marked as
  active. Each step keeps this as long as every stop meets the attached handle first
  (`step_followed`).
* `recvStopDl_detaches_iff` — each stop of a run leaves no handle of its file attached
  exactly if each of them meets the attached handle first.
-/

namespace FyreDL.Transfer

open Lib

/-! ## Conditions -/

/-- If a handle of the file is attached, then the first entry of `eh_vec` for the file is
the one of an attached handle. -/
def FindsAttached (ehOrder : IterOrder (Uuid × CurlInit)) (fileLoc : Str) (cm : CurlMulti) : Prop :=
  ∀ conn, findConn ehOrder fileLoc cm = some conn →
    (∃ h ∈ cm.multi.attached, h.fileLoc = fileLoc) → conn.2.easy ∈ cm.multi.attached

/-- Every stop meets the attached handle first. -/
def StopFinds (cm : CurlMulti) : Action → Prop
  | .stopDl ehOrder _ fileLoc => FindsAttached ehOrder fileLoc cm
  | .newDl _ _ _ _ => True
  | .transferEnds _ => True
  | .fileStream _ _ => True

/-- No id is drawn for `transfer_monitoring` that it has already. -/
def DrawsNew (cm : CurlMulti) : Action → Prop
  | .newDl env _ _ _ => env.drawnStat ∉ cm.transferMonitoring.map Prod.fst
  | .transferEnds _ => True
  | .fileStream _ _ => True
  | .stopDl _ _ _ => True

/-- A stop that returns leaves no handle of its file attached. -/
def Detaches (cm : CurlMulti) : Action → Prop
  | .stopDl ehOrder order fileLoc =>
    ∀ cm', recvStopDl ehOrder order fileLoc cm = .ok cm' →
      ∀ h ∈ cm'.multi.attached, h.fileLoc ≠ fileLoc
  | .newDl _ _ _ _ => True
  | .transferEnds _ => True
  | .fileStream _ _ => True

/-! ## The invariant -/

/-- Every file with an attached handle is active, and has one such handle. -/
structure Followed (cm : CurlMulti) : Prop where
  active : ∀ h ∈ cm.multi.attached, ∃ entry ∈ cm.transferMonitoring,
    entry.2.fileDest = h.fileLoc ∧ entry.2.isActive = true
  single : (cm.multi.attached.map Easy.fileLoc).Nodup

/-- All invariants of a run without a wrong stop. -/
structure Tracked (cm : CurlMulti) : Prop where
  monitored : Monitored cm.transferMonitoring
  registered : Registered cm
  followed : Followed cm

section Followed

variable {cm : CurlMulti}

theorem Followed.eq_of_file (hf : Followed cm) {h h' : Easy} (hh : h ∈ cm.multi.attached)
    (hh' : h' ∈ cm.multi.attached) (hfile : h.fileLoc = h'.fileLoc) : h = h' :=
  List.inj_on_of_nodup_map hf.single hh hh' hfile

theorem single_removeHandle {multi : Multi} (h : (multi.attached.map Easy.fileLoc).Nodup)
    (easy : Nat) : ((multi.removeHandle easy).attached.map Easy.fileLoc).Nodup :=
  h.sublist (List.filter_sublist.map _)

/-- A file without an active entry has no attached handle. -/
theorem Followed.ne_of_inactive (hf : Followed cm) (hm : Monitored cm.transferMonitoring)
    {entry : Uuid × ActiveDownloads} (hentry : entry ∈ cm.transferMonitoring)
    (hinactive : entry.2.isActive = false) :
    ∀ h ∈ cm.multi.attached, h.fileLoc ≠ entry.2.fileDest := by
  intro h hh hfile
  rcases hf.active h hh with ⟨e, he, hdest, hactive⟩
  have hsame : e = entry := hm.eq_of_file he hentry (hdest.trans hfile)
  rw [hsame, hinactive] at hactive
  exact Bool.false_ne_true hactive

/-- The entry of an attached handle's file survives a change of another entry. -/
theorem Followed.active_assign (hf : Followed cm) {entry : Uuid × ActiveDownloads}
    (hm : Monitored cm.transferMonitoring) (hentry : entry ∈ cm.transferMonitoring)
    {h : Easy} (hh : h ∈ cm.multi.attached) (hfile : h.fileLoc ≠ entry.2.fileDest)
    (isActive : Bool) :
    ∃ e ∈ assign cm.transferMonitoring entry.1 { entry.2 with isActive := isActive },
      e.2.fileDest = h.fileLoc ∧ e.2.isActive = true := by
  rcases hf.active h hh with ⟨e, he, hdest, hactive⟩
  refine ⟨e, mem_assign.mpr (.inl ⟨he, fun hkey => ?_⟩), hdest, hactive⟩
  have hsame : e = entry := hm.eq_of_key he hentry hkey
  exact hfile (hdest.symm.trans (by rw [hsame]))

theorem Followed.prepared (hf : Followed cm) {env : Outside}
    (hdrawn : env.drawnStat ∉ cm.transferMonitoring.map Prod.fst) (fileLoc : Str) :
    Followed (prepared env fileLoc cm) := by
  cases hfound : findDl env.order fileLoc cm with
  | some entry =>
    rw [prepared_of_found hfound]
    exact hf
  | none =>
    rw [prepared_of_new hfound]
    constructor
    · intro h hh
      rcases hf.active h hh with ⟨e, he, hdest, hactive⟩
      refine ⟨e, mem_assign.mpr (.inl ⟨he, ?_⟩), hdest, hactive⟩
      intro hkey
      exact hdrawn (hkey ▸ List.mem_map_of_mem he)
    · exact hf.single

theorem followed_newDl (ht : Tracked cm) {env : Outside}
    (hdrawn : env.drawnStat ∉ cm.transferMonitoring.map Prod.fst) (url fileLoc : Str)
    (resumeDl : Bool) : Followed (recvNewDl env url fileLoc resumeDl cm).1 := by
  have hprepared := ht.followed.prepared hdrawn fileLoc
  have hmonitored := prepared_monitored ht.monitored env fileLoc
  rcases recvNewDl_cases env url fileLoc resumeDl cm with
    ⟨-, hrun⟩ | ⟨-, -, handles, -, hrun⟩ | ⟨hstarts, -, entry, hentry, hrun⟩
  · rw [hrun]
    exact ht.followed
  · rw [hrun]
    exact ⟨hprepared.active, hprepared.single⟩
  · rw [hrun]
    rcases findDl_some hentry with ⟨hmem, hfile⟩
    -- the file is not active yet, so none of its handles is attached
    have hother : ∀ h ∈ (Transfer.prepared env fileLoc cm).multi.attached,
        h.fileLoc ≠ entry.2.fileDest :=
      hprepared.ne_of_inactive hmonitored hmem (prepared_inactive hstarts hentry)
    constructor
    · intro h hh
      rcases mem_addHandle.mp hh with hold | ⟨-, rfl⟩
      · exact hprepared.active_assign hmonitored hmem hold (hother h hold) true
      · exact ⟨_, mem_assign.mpr (.inr rfl), hfile, rfl⟩
    · change ((Multi.addHandle _ _ _).attached.map Easy.fileLoc).Nodup
      unfold Multi.addHandle
      split
      · rw [List.map_append, List.nodup_append]
        refine ⟨hprepared.single, List.nodup_singleton _, ?_⟩
        intro x hx y hy hxy
        rcases List.mem_map.mp hx with ⟨h, hh, rfl⟩
        rw [List.map_singleton, List.mem_singleton] at hy
        exact hother h hh (hxy.trans (hy.trans hfile.symm))
      · exact hprepared.single

theorem followed_fileStream (ht : Tracked cm) (ehOrder : IterOrder (Uuid × CurlInit))
    (order : IterOrder (Uuid × ActiveDownloads)) : Followed (fileStream ehOrder order cm).1 := by
  rcases fileStream_cases ehOrder order cm with ⟨-, hrun, -⟩ | ⟨msg, conn, entry, hmsg, hrun⟩
  · rw [hrun]
    exact ⟨ht.followed.active, ht.followed.single⟩
  · rw [hrun]
    rcases findEasy_some hmsg.2.1 with ⟨hconn, hnumber⟩
    rcases findDl_some hmsg.2.2 with ⟨hentry, hdest⟩
    have hmem : msg ∈ cm.multi.msgs := List.mem_of_mem_head? hmsg.1
    rcases ht.registered.messages msg hmem with ⟨h₀, hh₀, heasy⟩
    have hsame : conn.2.easy = h₀ :=
      ht.registered.easy_eq hconn hh₀ (heasy.trans hnumber.symm)
    constructor
    · intro h hh
      rcases mem_removeHandle.mp hh with ⟨hattached, hne⟩
      rcases ht.followed.active h hattached with ⟨e, he, hfile, hactive⟩
      refine ⟨e, mem_eraseKey.mpr ⟨he, fun hkey => ?_⟩, hfile, hactive⟩
      -- a second handle of the file that is taken out
      have heq : e = entry := ht.monitored.eq_of_key he hentry hkey
      have hloc : h.fileLoc = h₀.fileLoc := by
        rw [← hfile, heq, hdest, ← ht.registered.files conn hconn, hsame]
      rw [ht.followed.eq_of_file hattached hh₀ hloc, ← hsame] at hne
      exact hne rfl
    · exact single_removeHandle ht.followed.single _

/-- The handle that a stop detaches is the only one of the file. -/
theorem Tracked.detached (ht : Tracked cm) {ehOrder : IterOrder (Uuid × CurlInit)} {fileLoc : Str}
    (hfinds : FindsAttached ehOrder fileLoc cm) {conn : Uuid × CurlInit}
    (hconn : findConn ehOrder fileLoc cm = some conn) :
    ∀ h ∈ (cm.multi.removeHandle conn.2.easy.number).attached, h.fileLoc ≠ fileLoc := by
  intro h hh hfile
  rcases mem_removeHandle.mp hh with ⟨hattached, hne⟩
  rcases findConn_some hconn with ⟨hmem, hloc⟩
  have heasy : conn.2.easy ∈ cm.multi.attached := hfinds conn hconn ⟨h, hattached, hfile⟩
  have hsame : h = conn.2.easy := by
    apply ht.followed.eq_of_file hattached heasy
    rw [hfile, ht.registered.files conn hmem, hloc]
  exact hne (hsame ▸ rfl)

theorem followed_stopDl (ht : Tracked cm) {ehOrder : IterOrder (Uuid × CurlInit)}
    (order : IterOrder (Uuid × ActiveDownloads)) {fileLoc : Str}
    (hfinds : FindsAttached ehOrder fileLoc cm) :
    Followed (step cm (.stopDl ehOrder order fileLoc)) := by
  rcases step_stopDl ehOrder order cm fileLoc with hrun | ⟨conn, entry, hconn, hfound, -, hrun⟩
  · rw [hrun]
    exact ht.followed
  · rw [hrun]
    rcases findDl_some hfound with ⟨hentry, hdest⟩
    have hdetached := ht.detached hfinds hconn
    constructor
    · intro h hh
      have hfile : h.fileLoc ≠ entry.2.fileDest := hdest.symm ▸ hdetached h hh
      exact ht.followed.active_assign ht.monitored hentry (mem_removeHandle.mp hh).1 hfile false
    · exact single_removeHandle ht.followed.single _

end Followed

/-- **One step** keeps the invariants, unless it is a stop that meets another entry first. -/
theorem step_tracked (cm : CurlMulti) (a : Action) (ht : Tracked cm) (hdrawn : DrawsNew cm a)
    (hfinds : StopFinds cm a) : Tracked (step cm a) where
  monitored := step_monitored cm a ht.monitored
  registered := step_registered cm a ht.registered
  followed := by
    cases a with
    | newDl env url fileLoc resumeDl => exact followed_newDl ht hdrawn url fileLoc resumeDl
    | transferEnds msg =>
      constructor
      · intro h hh
        exact ht.followed.active h (finish_attached cm.multi msg ▸ hh)
      · change ((cm.multi.finish msg).attached.map Easy.fileLoc).Nodup
        rw [finish_attached]
        exact ht.followed.single
    | fileStream ehOrder order => exact followed_fileStream ht ehOrder order
    | stopDl ehOrder order fileLoc => exact followed_stopDl ht order hfinds

/-! ## Stops -/

/-- A stop detaches what is attached for its file exactly if it meets it first. -/
theorem Tracked.detaches_iff {cm : CurlMulti} (ht : Tracked cm) (a : Action) :
    Detaches cm a ↔ StopFinds cm a := by
  cases a with
  | newDl env url fileLoc resumeDl => exact Iff.rfl
  | transferEnds msg => exact Iff.rfl
  | fileStream ehOrder order => exact Iff.rfl
  | stopDl ehOrder order fileLoc =>
    constructor
    · intro hdetaches conn hconn hex
      rcases hex with ⟨h, hattached, hfile⟩
      -- the file is active, so the stop returns and has detached the handle it met
      rcases ht.followed.active h hattached with ⟨e, he, hdest, hactive⟩
      rcases recvStopDl_cases ehOrder order cm fileLoc with
        ⟨hnone | hnone, -⟩ | ⟨conn', entry, hconn', hentry, hrun⟩
      · rw [hconn] at hnone
        cases hnone
      · exact absurd (hdest.trans hfile) (findDl_none hnone e he)
      · rw [hconn, Option.some.injEq] at hconn'
        subst hconn'
        rcases findDl_some hentry with ⟨hmem, hloc⟩
        have hsame : e = entry :=
          ht.monitored.eq_of_file he hmem (hdest.trans (hfile.trans hloc.symm))
        rw [← hsame, if_pos hactive] at hrun
        by_contra hnot
        apply hdetaches _ hrun h (mem_removeHandle.mpr ⟨hattached, ?_⟩) hfile
        intro hnumber
        rw [ht.registered.easy_eq (findConn_some hconn).1 hattached hnumber] at hnot
        exact hnot hattached
    · intro hfinds cm' hret
      rcases recvStopDl_cases ehOrder order cm fileLoc with
        ⟨-, hrun⟩ | ⟨conn, entry, hconn, hentry, hrun⟩
      · rw [hrun] at hret
        cases hret
      · rw [hrun] at hret
        cases hret
        cases hactive : entry.2.isActive with
        | true =>
          rw [if_pos rfl]
          exact ht.detached hfinds hconn
        | false =>
          rw [if_neg Bool.false_ne_true]
          rcases findDl_some hentry with ⟨hmem, hloc⟩
          intro h hh hfile
          exact ht.followed.ne_of_inactive ht.monitored hmem hactive h hh (hfile.trans hloc.symm)

theorem tracked_start : Tracked CurlMulti.start where
  monitored := monitored_start
  registered :=
    { keys := List.nodup_nil
      easies := List.nodup_nil
      made := fun _ he => absurd he List.not_mem_nil
      files := fun _ he => absurd he List.not_mem_nil
      attached := fun _ hh => absurd hh List.not_mem_nil
      messages := fun _ hm => absurd hm List.not_mem_nil }
  followed :=
    { active := fun _ hh => absurd hh List.not_mem_nil
      single := List.nodup_nil }

/-- **All stops of a run.** Each of them that returns leaves no handle of its file attached
exactly if each of them meets the attached handle of its file before any other entry. -/
theorem recvStopDl_detaches_iff {as : List Action}
    (hdrawn : EachStep step DrawsNew CurlMulti.start as) :
    EachStep step Detaches CurlMulti.start as ↔ EachStep step StopFinds CurlMulti.start as :=
  eachStep_iff_of_invariant step_tracked (fun _ a ht => ht.detaches_iff a) tracked_start hdrawn

/-- A download that is started, stopped, and resumed. -/
def resumedRun : List Action :=
  [.newDl (sampleOutside 1 2) sampleUrl sampleFile false,
   .stopDl (IterOrder.insertion _) (IterOrder.insertion _) sampleFile,
   .newDl (sampleOutside 3 4) sampleUrl sampleFile true]

/-- It is stopped again. -/
def secondStop : Action := .stopDl (IterOrder.insertion _) (IterOrder.insertion _) sampleFile

/-- The second stop meets the entry of the first handle, and the second one stays
attached. -/
theorem recvStopDl_resumed :
    recvStopDl (IterOrder.insertion _) (IterOrder.insertion _) sampleFile
        (resumedRun.foldl step CurlMulti.start) =
      .ok ((resumedRun ++ [secondStop]).foldl step CurlMulti.start) ∧
    ((resumedRun ++ [secondStop]).foldl step CurlMulti.start).multi.attached = [⟨1, sampleFile⟩] ∧
    ¬ EachStep step Detaches CurlMulti.start (resumedRun ++ [secondStop]) := by
  have hret : recvStopDl (IterOrder.insertion _) (IterOrder.insertion _) sampleFile
      (resumedRun.foldl step CurlMulti.start) =
      .ok ((resumedRun ++ [secondStop]).foldl step CurlMulti.start) := by decide +kernel
  have hattached : ((resumedRun ++ [secondStop]).foldl step CurlMulti.start).multi.attached =
      [⟨1, sampleFile⟩] := by decide +kernel
  refine ⟨hret, hattached, ?_⟩
  intro hdetaches
  -- the second stop is the last step of the run
  have hlast : Detaches (resumedRun.foldl step CurlMulti.start) secondStop :=
    (eachStep_append.mp hdetaches).2.1
  apply hlast _ hret ⟨1, sampleFile⟩
  · rw [hattached]
    exact List.mem_cons_self
  · rfl

/-- The ids of the sample are new. -/
theorem recvStopDl_detaches_resumed :
    EachStep step Detaches CurlMulti.start resumedRun ↔
      EachStep step StopFinds CurlMulti.start resumedRun := by
  apply recvStopDl_detaches_iff
  refine ⟨?_, trivial, ?_, trivial⟩
  · change sampleUuid 1 ∉ _
    decide +kernel
  · change sampleUuid 3 ∉ _
    decide +kernel

end FyreDL.Transfer
