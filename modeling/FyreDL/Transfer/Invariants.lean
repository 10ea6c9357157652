import FyreDL.Transfer.Steps

/-!
# FyreDL.Transfer.Invariants — what holds in every run

Whatever the environment does, each step keeps two invariants.

* `Monitored`: `transfer_monitoring` has each id and each file once (`step_monitored`).
* `Registered`: every attached easy handle has its own entry in `eh_vec`, and every
  message is about an attached handle (`step_registered`). The converse does not hold: a
  stop leaves the entry of a handle that it detaches.
-/

namespace FyreDL.Transfer

open Lib

/-! ## The files under transfer -/

/-- Each id and each file is in the map once. -/
structure Monitored (m : List (Uuid × ActiveDownloads)) : Prop where
  keys : (m.map Prod.fst).Nodup
  files : (m.map fun entry => entry.2.fileDest).Nodup

section Monitored

variable {m : List (Uuid × ActiveDownloads)}

/-- The entry of a key, and of a file. -/
theorem Monitored.eq_of_key (h : Monitored m) {e e' : Uuid × ActiveDownloads} (he : e ∈ m)
    (he' : e' ∈ m) (hkey : e.1 = e'.1) : e = e' :=
  List.inj_on_of_nodup_map h.keys he he' hkey

theorem Monitored.eq_of_file (h : Monitored m) {e e' : Uuid × ActiveDownloads} (he : e ∈ m)
    (he' : e' ∈ m) (hfile : e.2.fileDest = e'.2.fileDest) : e = e' :=
  List.inj_on_of_nodup_map h.files he he' hfile

/-- An entry for a file that has none. -/
theorem Monitored.add (h : Monitored m) {fileLoc : Str}
    (hnone : ∀ e ∈ m, e.2.fileDest ≠ fileLoc) (uuid : Uuid) (isActive : Bool) :
    Monitored (assign m uuid ⟨fileLoc, isActive⟩) where
  keys := nodup_assign h.keys _ _
  files := nodup_map_assign h.files fun e he _ => hnone e he

/-- A new flag for an entry. -/
theorem Monitored.setActive (h : Monitored m) {e : Uuid × ActiveDownloads} (he : e ∈ m)
    (isActive : Bool) : Monitored (assign m e.1 { e.2 with isActive := isActive }) where
  keys := nodup_assign h.keys _ _
  files := by
    refine nodup_map_assign h.files ?_
    intro e' he' hkey hfile
    exact hkey (congrArg Prod.fst (h.eq_of_file he' he hfile))

theorem Monitored.erase (h : Monitored m) (uuid : Uuid) : Monitored (eraseKey m uuid) where
  keys := nodup_eraseKey h.keys uuid
  files := h.files.sublist ((eraseKey_sublist m uuid).map _)

end Monitored

theorem prepared_monitored {cm : CurlMulti} (h : Monitored cm.transferMonitoring) (env : Outside)
    (fileLoc : Str) : Monitored (prepared env fileLoc cm).transferMonitoring := by
  cases hfound : findDl env.order fileLoc cm with
  | some entry =>
    rw [prepared_of_found hfound]
    exact h
  | none =>
    rw [prepared_of_new hfound]
    exact h.add (findDl_none hfound) _ _

/-- Every step keeps the map in order. -/
theorem step_monitored (cm : CurlMulti) (a : Action) (h : Monitored cm.transferMonitoring) :
    Monitored (step cm a).transferMonitoring := by
  cases a with
  | newDl env url fileLoc resumeDl =>
    -- the entry is made before anything can fail
    have hprepared := prepared_monitored h env fileLoc
    change Monitored (recvNewDl env url fileLoc resumeDl cm).1.transferMonitoring
    rcases recvNewDl_cases env url fileLoc resumeDl cm with
      ⟨-, hrun⟩ | ⟨-, -, handles, -, hrun⟩ | ⟨-, -, entry, hfound, hrun⟩
    · rw [hrun]
      exact h
    · rw [hrun]
      exact hprepared
    · rw [hrun]
      exact hprepared.setActive (findDl_some hfound).1 true
  | transferEnds msg => exact h
  | fileStream ehOrder order =>
    change Monitored (fileStream ehOrder order cm).1.transferMonitoring
    rcases fileStream_cases ehOrder order cm with ⟨-, hrun, -⟩ | ⟨msg, conn, entry, -, hrun⟩
    · rw [hrun]
      exact h
    · rw [hrun]
      exact h.erase _
  | stopDl ehOrder order fileLoc =>
    rcases step_stopDl ehOrder order cm fileLoc with hrun | ⟨conn, entry, -, hfound, -, hrun⟩
    · rw [hrun]
      exact h
    · rw [hrun]
      exact h.setActive (findDl_some hfound).1 false

/-! ## The handles and their entries -/

theorem mem_removeHandle {multi : Multi} {easy : Nat} {h : Easy} :
    h ∈ (multi.removeHandle easy).attached ↔ h ∈ multi.attached ∧ h.number ≠ easy := by
  rw [Multi.removeHandle, List.mem_filter, decide_eq_true_eq]

theorem mem_addHandle {multi : Multi} {easy h : Easy} {answer : CurlMCode} :
    h ∈ (multi.addHandle easy answer).attached ↔
      h ∈ multi.attached ∨ (answer = .ok ∧ h = easy) := by
  unfold Multi.addHandle
  split
  · rename_i hok
    rw [List.mem_append, List.mem_singleton]
    simp only [hok, true_and]
  · rename_i hok
    simp only [hok, false_and, or_false]

theorem addHandle_msgs (multi : Multi) (easy : Easy) (answer : CurlMCode) :
    (multi.addHandle easy answer).msgs = multi.msgs := by
  unfold Multi.addHandle
  split
  · rfl
  · rfl

theorem finish_attached (multi : Multi) (msg : CurlMsg) :
    (multi.finish msg).attached = multi.attached := by
  unfold Multi.finish
  split
  · rfl
  · rfl

/-- Every message is about an attached handle. -/
def Messages (multi : Multi) : Prop :=
  ∀ m ∈ multi.msgs, ∃ h ∈ multi.attached, h.number = m.easy

theorem Messages.finish {multi : Multi} (h : Messages multi) (msg : CurlMsg) :
    Messages (multi.finish msg) := by
  unfold Multi.finish
  split
  · rename_i hnew
    intro m hm
    rcases List.mem_append.mp hm with hold | hin
    · exact h m hold
    · rw [List.mem_singleton.mp hin]
      exact hnew.1
  · exact h

theorem Messages.tail {multi : Multi} (h : Messages multi) :
    Messages { multi with msgs := multi.msgs.tail } :=
  fun m hm => h m (List.mem_of_mem_tail hm)

theorem Messages.removeHandle {multi : Multi} (h : Messages multi) (easy : Nat) :
    Messages (multi.removeHandle easy) := by
  intro m hm
  rcases List.mem_filter.mp hm with ⟨hmem, hne⟩
  rcases h m hmem with ⟨handle, hattached, hnumber⟩
  refine ⟨handle, mem_removeHandle.mpr ⟨hattached, ?_⟩, hnumber⟩
  rw [hnumber]
  exact of_decide_eq_true hne

theorem Messages.addHandle {multi : Multi} (h : Messages multi) (easy : Easy)
    (answer : CurlMCode) : Messages (multi.addHandle easy answer) := by
  intro m hm
  rw [addHandle_msgs] at hm
  rcases h m hm with ⟨handle, hattached, hnumber⟩
  exact ⟨handle, mem_addHandle.mpr (.inl hattached), hnumber⟩

/-- Every attached handle has its own entry in `eh_vec`. -/
structure Registered (cm : CurlMulti) : Prop where
  keys : (cm.ehVec.map Prod.fst).Nodup
  easies : (cm.ehVec.map fun e => e.2.easy.number).Nodup
  made : ∀ e ∈ cm.ehVec, e.2.easy.number < cm.handles
  files : ∀ e ∈ cm.ehVec, e.2.easy.fileLoc = e.2.fileLoc
  attached : ∀ h ∈ cm.multi.attached, ∃ e ∈ cm.ehVec, e.2.easy = h
  messages : Messages cm.multi

section Registered

variable {cm : CurlMulti}

/-- The entry of an easy handle. -/
theorem Registered.eq_of_easy (hr : Registered cm) {e e' : Uuid × CurlInit} (he : e ∈ cm.ehVec)
    (he' : e' ∈ cm.ehVec) (hnumber : e.2.easy.number = e'.2.easy.number) : e = e' :=
  List.inj_on_of_nodup_map hr.easies he he' hnumber

/-- An entry with the number of an attached handle is its entry. -/
theorem Registered.easy_eq (hr : Registered cm) {e : Uuid × CurlInit} (he : e ∈ cm.ehVec)
    {h : Easy} (hh : h ∈ cm.multi.attached) (hnumber : h.number = e.2.easy.number) :
    e.2.easy = h := by
  rcases hr.attached h hh with ⟨e', he', rfl⟩
  rw [hr.eq_of_easy he he' hnumber.symm]

/-- What the two maps and the handles leave open does not matter. -/
theorem Registered.congr (hr : Registered cm) {cm' : CurlMulti} (hconns : cm'.ehVec = cm.ehVec)
    (hmulti : cm'.multi = cm.multi) (hmade : cm.handles ≤ cm'.handles) : Registered cm' where
  keys := hconns ▸ hr.keys
  easies := hconns ▸ hr.easies
  made := by
    intro e he
    exact Nat.lt_of_lt_of_le (hr.made e (hconns ▸ he)) hmade
  files := hconns ▸ hr.files
  attached := by
    intro h hh
    rw [hconns]
    exact hr.attached h (hmulti ▸ hh)
  messages := hmulti ▸ hr.messages

/-- Handles may be detached. -/
theorem Registered.detach (hr : Registered cm) (easy : Nat) :
    Registered { cm with multi := cm.multi.removeHandle easy } where
  keys := hr.keys
  easies := hr.easies
  made := hr.made
  files := hr.files
  attached := fun h hh => hr.attached h (mem_removeHandle.mp hh).1
  messages := hr.messages.removeHandle easy

/-- The entry of a handle goes when the handle does. -/
theorem Registered.takenOut (hr : Registered cm) {conn : Uuid × CurlInit} (hconn : conn ∈ cm.ehVec)
    (entry : Uuid × ActiveDownloads) : Registered (takenOut cm conn entry) where
  keys := nodup_eraseKey hr.keys _
  easies := hr.easies.sublist ((eraseKey_sublist _ _).map _)
  made := fun e he => hr.made e (mem_eraseKey.mp he).1
  files := fun e he => hr.files e (mem_eraseKey.mp he).1
  attached := by
    intro h hh
    rcases mem_removeHandle.mp hh with ⟨hattached, hnumber⟩
    rcases hr.attached h hattached with ⟨e, he, rfl⟩
    refine ⟨e, mem_eraseKey.mpr ⟨he, ?_⟩, rfl⟩
    intro hkey
    have hsame : e = conn := List.inj_on_of_nodup_map hr.keys he hconn hkey
    exact hnumber (hsame ▸ rfl)
  messages := hr.messages.tail.removeHandle _

/-- A new handle comes with an entry. -/
theorem Registered.opened (hr : Registered cm) {env : Outside}
    (hid : env.drawnConn ∉ cm.ehVec.map Prod.fst) (url fileLoc : Str)
    (entry : Uuid × ActiveDownloads) : Registered (opened env url fileLoc cm entry) where
  keys := nodup_assign hr.keys _ _
  easies := by
    refine nodup_map_assign hr.easies ?_
    intro e he _
    exact Nat.ne_of_lt (hr.made e he)
  made := by
    intro e he
    rcases mem_assign.mp he with ⟨hold, -⟩ | rfl
    · exact Nat.lt_succ_of_lt (hr.made e hold)
    · exact Nat.lt_succ_self _
  files := by
    intro e he
    rcases mem_assign.mp he with ⟨hold, -⟩ | rfl
    · exact hr.files e hold
    · rfl
  attached := by
    intro h hh
    rcases mem_addHandle.mp hh with hold | ⟨-, rfl⟩
    · rcases hr.attached h hold with ⟨e, he, heasy⟩
      -- its entry stays, as the new id is not in the map
      refine ⟨e, mem_assign.mpr (.inl ⟨he, ?_⟩), heasy⟩
      exact fun hkey => hid (hkey ▸ List.mem_map_of_mem he)
    · exact ⟨_, mem_assign.mpr (.inr rfl), rfl⟩
  messages := hr.messages.addHandle _ _

end Registered

/-- Every step keeps the handles registered. -/
theorem step_registered (cm : CurlMulti) (a : Action) (hr : Registered cm) :
    Registered (step cm a) := by
  cases a with
  | newDl env url fileLoc resumeDl =>
    -- the entry of the file is in another map than the handles
    have hprepared : Registered (prepared env fileLoc cm) :=
      hr.congr prepared_ehVec prepared_multi (Nat.le_of_eq prepared_handles.symm)
    change Registered (recvNewDl env url fileLoc resumeDl cm).1
    rcases recvNewDl_cases env url fileLoc resumeDl cm with
      ⟨-, hrun⟩ | ⟨-, -, handles, hle, hrun⟩ | ⟨-, hopens, entry, -, hrun⟩
    · rw [hrun]
      exact hr
    · rw [hrun]
      exact hr.congr prepared_ehVec prepared_multi hle
    · rw [hrun]
      -- the drawn id is new, or `create_id` had failed
      refine hprepared.opened ?_ url fileLoc entry
      rw [prepared_ehVec]
      exact hopens.1
  | transferEnds msg =>
    exact
      { keys := hr.keys
        easies := hr.easies
        made := hr.made
        files := hr.files
        attached := fun h hh => hr.attached h (finish_attached cm.multi msg ▸ hh)
        messages := hr.messages.finish msg }
  | fileStream ehOrder order =>
    change Registered (fileStream ehOrder order cm).1
    rcases fileStream_cases ehOrder order cm with ⟨-, hrun, -⟩ | ⟨msg, conn, entry, hmsg, hrun⟩
    · rw [hrun]
      exact
        { keys := hr.keys
          easies := hr.easies
          made := hr.made
          files := hr.files
          attached := hr.attached
          messages := hr.messages.tail }
    · rw [hrun]
      exact hr.takenOut (findEasy_some hmsg.2.1).1 entry
  | stopDl ehOrder order fileLoc =>
    rcases step_stopDl ehOrder order cm fileLoc with hrun | ⟨conn, entry, -, -, -, hrun⟩
    · rw [hrun]
      exact hr
    · rw [hrun]
      exact (hr.detach conn.2.easy.number).congr rfl rfl (Nat.le_refl _)

/-- A handle that is attached after a `recvNewDl` was attached before, or is the one that the
call has made. -/
theorem recvNewDl_attached {env : Outside} {url fileLoc : Str} {resumeDl : Bool} {cm : CurlMulti}
    {e : Easy} (he : e ∈ (recvNewDl env url fileLoc resumeDl cm).1.multi.attached) :
    e ∈ cm.multi.attached ∨
      (Starts env url fileLoc cm ∧ Opens env resumeDl cm ∧
        (recvNewDl env url fileLoc resumeDl cm).1.handles = cm.handles + 1 ∧
        e = ⟨cm.handles, fileLoc⟩) := by
  rcases recvNewDl_cases env url fileLoc resumeDl cm with
    ⟨-, hrun⟩ | ⟨-, -, handles, -, hrun⟩ | ⟨hstarts, hopens, entry, -, hrun⟩
  · rw [hrun] at he
    exact .inl he
  · -- `new_conn` throws in front of `curl_multi_add_handle`
    rw [hrun] at he
    dsimp only at he
    rw [prepared_multi] at he
    exact .inl he
  · rw [hrun] at he ⊢
    rcases mem_addHandle.mp he with hold | ⟨-, heq⟩
    · rw [prepared_multi] at hold
      exact .inl hold
    · rw [prepared_handles] at heq
      refine .inr ⟨hstarts, hopens, ?_, heq⟩
      change (prepared env fileLoc cm).handles + 1 = cm.handles + 1
      rw [prepared_handles]

/-! ## A sample environment -/

theorem isDigit_digitChar : ∀ digit < 10, (Nat.digitChar digit).isDigit = true := by decide

/-- The id whose digits are all the same. -/
def sampleUuid (digit : Nat) : Uuid :=
  ⟨List.replicate 23 (Nat.digitChar (digit % 10)), List.length_replicate, fun _ hc =>
    List.eq_of_mem_replicate hc ▸ isDigit_digitChar _ (Nat.mod_lt digit (Nat.succ_pos 9))⟩

/-- Nothing goes wrong: ids of one digit each, a handle, and a file of 10 bytes. -/
def sampleOutside (stat conn : Nat) : Outside where
  drawnStat := sampleUuid stat
  drawnConn := sampleUuid conn
  easyInit := true
  addAnswer := .ok
  fileSize := 10
  order := IterOrder.insertion _

def sampleUrl : Str := "http://h/a.iso".toList

def sampleFile : Str := "/dl/a.iso".toList

end FyreDL.Transfer
