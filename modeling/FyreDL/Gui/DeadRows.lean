import FyreDL.Gui.Actions
import FyreDL.Gui.Agreement

/-!
# FyreDL.Gui.DeadRows — actions on a row that has failed or is invalid

`convDlStat_StringToEnum` does not know the text of `Invalid` and takes it for `Unknown`,
which `resumeDownload` treats as `Stopped` and the other three actions as any other status.

1. **Parts**: what the parts of a slot do to the desk, for a row of a tidy window.
2. **Slots**: a failed row is left alone (`slot_failed`). An invalid one is changed or
   started exactly if the action meets a world with `Touches` (`slot_invalid`).
3. **Runs**: `staysDead_iff`.
-/

namespace FyreDL.Gui

open Lib Lib.Kv Store Transfer

/-! ## Parts -/

/-- A `sendStartDownload` was emitted. -/
def HasStart (sent : List Signal) : Prop :=
  ∃ url fileLoc resumeDl, Signal.startDownload url fileLoc resumeDl ∈ sent

/-- The two desks show the same window, and no start was emitted in between. -/
structure Quiet (d d' : Desk) : Prop where
  window : d'.window = d.window
  starts : HasStart d'.sent → HasStart d.sent

theorem Quiet.refl (d : Desk) : Quiet d d := ⟨rfl, id⟩

theorem Quiet.trans {d d₁ d₂ : Desk} (h : Quiet d d₁) (h' : Quiet d₁ d₂) : Quiet d d₂ :=
  ⟨h'.window.trans h.window, fun hs => h.starts (h'.starts hs)⟩

/-- The desk with another database. -/
def Desk.withDb (d : Desk) (db : Db) : Desk := { d with db := db }

theorem Quiet.withDb (d : Desk) (db : Db) : Quiet d (d.withDb db) := ⟨rfl, id⟩

/-- The desk with another status in the row. -/
def Desk.withStatus (d : Desk) (row : Nat) (cells : List Str) (status : DownloadStatus) : Desk :=
  { d with
    window := { d.window with
      vectorList := d.window.vectorList.set row
        (cells.set mnStatusCol (convDlStatToString status)) } }

/-- The desk after `sendStopDownload`. -/
def Desk.withStop (d : Desk) (fileLoc : Str) : Desk :=
  { d with
    stopConnections := d.stopConnections + 1
    sent := d.sent ++ [.stopDownload fileLoc] }

theorem Quiet.withStop (d : Desk) (fileLoc : Str) : Quiet d (d.withStop fileLoc) := by
  refine ⟨rfl, ?_⟩
  rintro ⟨url, file, resumeDl, hmem⟩
  rcases List.mem_append.mp hmem with hold | hnew
  · exact ⟨url, file, resumeDl, hold⟩
  · cases List.mem_singleton.mp hnew

/-- `modifyCurlItem` comes back: the reader of the index gets to its end, and nothing stops
the application in between. -/
def ComesBack (world : World) (fileLoc : Str) (status : DownloadStatus) (db : Db) : Prop :=
  ∃ result m, exec world.faults (modifyCurlItem fileLoc status 0 [] .none [] .notApplicable)
    (Machine.start db) = (.ret result, m)

section Parts

variable {d : Desk} {row : Nat} {cells : List Str}

theorem ofDb_ret {α : Type} (faults : Faults Str) (a : α) (d : Desk) :
    ofDb faults (.ret a) d = (.ret a, d) := rfl

theorem cellText_eq (hrow : d.window.vectorList[row]? = some cells)
    (hlength : cells.length = mnColCount) {column : Nat} (hcolumn : column < mnColCount) :
    cellText row column d = (.ret (cells.getD column []), d) := by
  rw [cellText, Proc.state_bind, textAt_eq hrow hlength hcolumn, ofDb_ret]

theorem shownStatus_eq (hrow : d.window.vectorList[row]? = some cells)
    (hlength : cells.length = mnColCount) :
    shownStatus row d = (.ret (convDlStatStringToEnum (cells.getD mnStatusCol [])), d) := by
  rw [shownStatus, Proc.bind_ret (cellText_eq hrow hlength (by decide))]
  rfl

theorem showStatus_eq (hrow : d.window.vectorList[row]? = some cells)
    (hlength : cells.length = mnColCount) (status : DownloadStatus) :
    showStatus row status d = (.ret (), d.withStatus row cells status) := by
  have hlt : row < d.window.vectorList.length := (List.getElem?_eq_some_iff.mp hrow).1
  have hcolumn : mnStatusCol < cells.length := by
    rw [hlength]
    decide
  rw [showStatus, Proc.state_bind]
  dsimp only
  rw [modelIndex_of_lt hlt (by decide), updateCol_eq hrow hcolumn]
  rfl

/-- `modifyCurlItem` shows its exceptions. -/
theorem storeStatus_cases (world : World) (fileLoc : Str) (status : DownloadStatus) (d : Desk) :
    (ComesBack world fileLoc status d.db ∧
      ∃ db, storeStatus world fileLoc status d = (.ret (), d.withDb db)) ∨
    (¬ ComesBack world fileLoc status d.db ∧
      ∃ db, storeStatus world fileLoc status d = (.stuck, d.withDb db)) := by
  have hends : Ends (fun _ => True) (fun _ => False)
      (modifyCurlItem fileLoc status 0 [] .none [] .notApplicable) := Ends.shown _ _ _
  have hthrow := (hends.exec world.faults (Machine.start d.db)).2
  rcases hexec : exec world.faults (modifyCurlItem fileLoc status 0 [] .none [] .notApplicable)
    (Machine.start d.db) with ⟨o, m⟩
  have hnot : (∀ result, o ≠ .ret result) → ¬ ComesBack world fileLoc status d.db := by
    rintro hno ⟨result, m', hret⟩
    rw [hexec] at hret
    exact hno result (congrArg Prod.fst hret)
  cases o with
  | ret result =>
    left
    refine ⟨⟨result, m, hexec⟩, m.store, ?_⟩
    rw [storeStatus, Proc.bind_ret (show ofDb world.faults _ d = _ by rw [ofDb, hexec])]
    rfl
  | throw what => exact (hthrow what (by rw [hexec])).elim
  | hung =>
    right
    refine ⟨hnot nofun, m.store, ?_⟩
    rw [storeStatus, Proc.bind_stuck (show ofDb world.faults _ d = _ by rw [ofDb, hexec])]
    rfl
  | stopped =>
    right
    refine ⟨hnot nofun, m.store, ?_⟩
    rw [storeStatus, Proc.bind_stuck (show ofDb world.faults _ d = _ by rw [ofDb, hexec])]
    rfl

/-- `sendStopDownload` throws unless the transfer of the file is known. -/
theorem sendStopDownload_cases (world : World) (fileLoc : Str) (d : Desk) :
    (Known world.transfers fileLoc ∧
      sendStopDownload world fileLoc d = (.ret (), d.withStop fileLoc)) ∨
    (¬ Known world.transfers fileLoc ∧
      ∃ what, sendStopDownload world fileLoc d =
        (.throw (.exception what), d.withStop fileLoc)) := by
  have horders : (List.range (d.stopConnections + 1)).map world.stopOrders ≠ [] := by simp
  have hiff := @deliverStop_ok_iff world.transfers fileLoc _ horders
  rw [sendStopDownload, Proc.modify_bind, Proc.state_bind]
  dsimp only
  cases hdeliver : deliverStop ((List.range (d.stopConnections + 1)).map world.stopOrders) fileLoc
      world.transfers with
  | ok cm => exact .inl ⟨hiff.mp ⟨cm, hdeliver⟩, rfl⟩
  | error what =>
    refine .inr ⟨fun hknown => ?_, what, rfl⟩
    rcases hiff.mpr hknown with ⟨cm, hok⟩
    rw [hdeliver] at hok
    cases hok

/-- The loop over the cache is about one entry. -/
theorem forCached_eq (ht : Tidy d.window) {info : DownloadInfo}
    (hinfo : info ∈ d.window.gkDlInfoCache) (body : DownloadInfo → Slot Bool) :
    forCached info.uniqueId body d = (body info >>= fun _ => Proc.ret ()) d := by
  rw [forCached, Proc.state_bind, Proc.seek_only ht.distinct.of_map hinfo, if_pos rfl]
  intro other hother hne s
  rw [if_neg]
  · rfl
  · intro hid
    exact hne (List.inj_on_of_nodup_map ht.distinct hother hinfo hid)

/-- A handler leaves the desk as it finds it. -/
theorem catchStd_desk {α : Type} (p : Slot α) (a : α) (d : Desk) :
    (catchStd p a d).2 = (p d).2 := by
  rcases hp : p d with ⟨o, d'⟩
  cases o with
  | ret b => rw [catchStd, Proc.catching_ret hp]
  | throw x =>
    -- the other kind of exception is thrown again
    rw [catchStd, Proc.catching_throw hp]
    cases x <;> rfl
  | stuck => rw [catchStd, Proc.catching_stuck hp]

theorem bind_ret_desk {α β : Type} (p : Slot α) (b : β) (d : Desk) :
    ((p >>= fun _ => Proc.ret b) d).2 = (p d).2 := by
  rcases hp : p d with ⟨o, d'⟩
  cases o with
  | ret a => rw [Proc.bind_ret hp, Proc.ret_apply]
  | throw x => rw [Proc.bind_throw hp]
  | stuck => rw [Proc.bind_stuck hp]

theorem forCached_desk (ht : Tidy d.window) {info : DownloadInfo}
    (hinfo : info ∈ d.window.gkDlInfoCache) (body : DownloadInfo → Slot Bool) :
    (forCached info.uniqueId body d).2 = (body info d).2 := by
  rw [forCached_eq ht hinfo, bind_ret_desk]

end Parts

/-! ## Slots -/

/-- The row of an HTTP/FTP download in a tidy window. -/
structure HttpRow (w : MainWindow) (row : Nat) (cells : List Str) (info : DownloadInfo) : Prop where
  tidy : Tidy w
  shown : w.vectorList[row]? = some cells
  cached : info ∈ w.gkDlInfoCache
  id : info.uniqueId = cells.getD mnHiddenUniqueId []
  http : IsHttp info

theorem HttpRow.length {w : MainWindow} {row : Nat} {cells : List Str} {info : DownloadInfo}
    (h : HttpRow w row cells info) : cells.length = mnColCount :=
  h.tidy.complete cells (List.mem_of_getElem? h.shown)

/-- A download can be started: the server answers, its size fits, and the database comes
back. -/
def CanStart (world : World) (url dest : Str) (db : Db) : Prop :=
  (∃ contentLength, world.curlGrabInfo url = .ok contentLength ∧
    contentLength * freeDskSpaceMultiplier < world.freeDiskSpace dest) ∧
  ComesBack world dest .downloading db

/-- The file is still there behind a dialog and can be removed. -/
def Removes (world : World) (dest : Str) : Prop :=
  world.filesLater dest = .ok .regular ∧ world.remove dest = none

/-- The user and the file system let `resumeDownload` start a stopped download. -/
def Lets (world : World) (dest : Str) : Prop :=
  match world.files dest with
  | .error _ => False
  | .ok kind => kind = .regular →
    world.answer = .yes ∨ (world.answer = .no ∧ Removes world dest)

/-- The four actions. -/
inductive RowAction where
  | resume | pause | halt | restart
deriving DecidableEq, Repr

def RowAction.slot (action : RowAction) (world : World) (selected : Option Nat) : Slot Unit :=
  match action with
  | .resume => resumeDownload world selected
  | .pause => pauseDownload world selected
  | .halt => haltDownload world selected
  | .restart => restartDownload world selected

/-- The action gets to the point where it starts a download, or shows another status. -/
def Touches (action : RowAction) (world : World) (url dest : Str) (db : Db) : Prop :=
  match action with
  | .resume => Lets world dest ∧ CanStart world url dest db
  | .pause => Known world.transfers dest ∧ ComesBack world dest .paused db
  | .halt => Known world.transfers dest ∧ ComesBack world dest .stopped db
  | .restart => (world.answer = .yes ∧ Removes world dest) ∧ CanStart world url dest db

section Slots

variable {d : Desk} {row : Nat} {cells : List Str} {info : DownloadInfo}

theorem startHttpDownload_desk (h : HttpRow d.window row cells info)
    (hstatus : convDlStatStringToEnum (cells.getD mnStatusCol []) ≠ .downloading) (world : World)
    (dest : Str) (resumeDl : Bool) :
    (CanStart world (cells.getD mnUrlCol []) dest d.db →
      HasStart (startHttpDownload world row dest info.uniqueId resumeDl d).2.sent) ∧
    (¬ CanStart world (cells.getD mnUrlCol []) dest d.db →
      Quiet d (startHttpDownload world row dest info.uniqueId resumeDl d).2) := by
  rw [startHttpDownload, Proc.bind_ret (cellText_eq h.shown h.length (by decide)),
    Proc.bind_ret (shownStatus_eq h.shown h.length), catchStd_desk, forCached_desk h.tidy h.cached,
    if_pos ⟨h.http, hstatus⟩]
  cases hserver : world.curlGrabInfo (cells.getD mnUrlCol []) with
  | error what =>
    refine ⟨?_, fun _ => Quiet.refl d⟩
    rintro ⟨⟨contentLength, hok, -⟩, -⟩
    rw [hserver] at hok
    cases hok
  | ok contentLength =>
    dsimp only
    by_cases hspace : contentLength * freeDskSpaceMultiplier < world.freeDiskSpace dest
    · rw [if_pos hspace]
      rcases storeStatus_cases world dest .downloading d with
        ⟨hback, db, hstore⟩ | ⟨hback, db, hstore⟩
      · refine ⟨fun _ => ?_, fun hnot => absurd ⟨⟨contentLength, hserver, hspace⟩, hback⟩ hnot⟩
        have hshow := @showStatus_eq (d.withDb db) row cells h.shown h.length .downloading
        rw [Proc.bind_ret hstore, Proc.bind_ret hshow, Proc.modify_bind]
        exact ⟨_, dest, resumeDl, List.mem_append_right _ (List.mem_singleton_self _)⟩
      · refine ⟨fun hcan => absurd hcan.2 hback, ?_⟩
        intro _
        rw [Proc.bind_stuck hstore]
        exact Quiet.withDb d db
    · rw [if_neg hspace]
      refine ⟨?_, fun _ => Quiet.refl d⟩
      rintro ⟨⟨n, hok, hlt⟩, -⟩
      rw [hserver] at hok
      cases hok
      exact absurd hlt hspace

theorem removeAndStart_desk (h : HttpRow d.window row cells info)
    (hstatus : convDlStatStringToEnum (cells.getD mnStatusCol []) ≠ .downloading) (world : World)
    (dest : Str) :
    (Removes world dest ∧ CanStart world (cells.getD mnUrlCol []) dest d.db →
      HasStart (removeAndStart world row dest info.uniqueId d).2.sent) ∧
    (¬ (Removes world dest ∧ CanStart world (cells.getD mnUrlCol []) dest d.db) →
      Quiet d (removeAndStart world row dest info.uniqueId d).2) := by
  have hstart := startHttpDownload_desk h hstatus world dest false
  by_cases hremoves : Removes world dest
  · have hfile : isRegularFile world.filesLater dest d = (.ret true, d) := by
      rw [isRegularFile, hremoves.1]
      rfl
    have hremove : removeFile world dest d = (.ret (), d) := by
      rw [removeFile, hremoves.2]
      rfl
    rw [removeAndStart, Proc.bind_ret hfile, if_pos rfl, Proc.bind_ret hremove,
      and_iff_right hremoves]
    exact hstart
  · refine ⟨fun hboth => absurd hboth.1 hremoves, ?_⟩
    intro _
    rw [removeAndStart]
    -- the file is gone, or it stays where it is
    cases hfile : world.filesLater dest with
    | error what =>
      have hthrow : isRegularFile world.filesLater dest d = (.throw (.exception what), d) := by
        rw [isRegularFile, hfile]
        rfl
      rw [Proc.bind_throw hthrow]
      exact Quiet.refl d
    | ok kind =>
      have hret : isRegularFile world.filesLater dest d = (.ret (kind = .regular), d) := by
        rw [isRegularFile, hfile]
        rfl
      rw [Proc.bind_ret hret]
      by_cases hregular : kind = .regular
      · cases hremove : world.remove dest with
        | none => exact absurd ⟨hregular ▸ hfile, hremove⟩ hremoves
        | some name =>
          have hthrow : removeFile world dest d = (.throw (.category name), d) := by
            rw [removeFile, hremove]
            rfl
          rw [if_pos (decide_eq_true hregular), Proc.bind_throw hthrow]
          exact Quiet.refl d
      · rw [if_neg (by simpa using hregular)]
        exact Quiet.refl d

/-- The texts of the row that a slot reads first. -/
theorem HttpRow.reads (h : HttpRow d.window row cells info) :
    cellText row mnDestinationCol d = (.ret (cells.getD mnDestinationCol []), d) ∧
      cellText row mnHiddenUniqueId d = (.ret info.uniqueId, d) ∧
      shownStatus row d = (.ret (convDlStatStringToEnum (cells.getD mnStatusCol [])), d) := by
  refine ⟨cellText_eq h.shown h.length (by decide), ?_, shownStatus_eq h.shown h.length⟩
  rw [h.id]
  exact cellText_eq h.shown h.length (by decide)

/-- A row that shows a failed download is left alone. -/
theorem slot_failed (h : HttpRow d.window row cells info)
    (hfailed : convDlStatStringToEnum (cells.getD mnStatusCol []) = .failed)
    (action : RowAction) (world : World) : (action.slot world (some row) d).2 = d := by
  rcases h.reads with ⟨hdest, hid, hstatus⟩
  rw [hfailed] at hstatus
  cases action with
  | resume =>
    change (resumeDownload world (some row) d).2 = d
    rw [resumeDownload, Proc.bind_ret hdest, Proc.bind_ret hstatus, Proc.bind_ret hid,
      forCached_desk h.tidy h.cached, if_pos h.http]
    rfl
  | pause =>
    change (pauseDownload world (some row) d).2 = d
    rw [pauseDownload, catchStd_desk, Proc.bind_ret hdest, Proc.bind_ret hid,
      Proc.bind_ret hstatus, if_pos (by decide), forCached_desk h.tidy h.cached, if_pos h.http,
      if_neg (by decide)]
    rfl
  | halt =>
    change (haltDownload world (some row) d).2 = d
    rw [haltDownload, catchStd_desk, Proc.bind_ret hdest, Proc.bind_ret hid,
      Proc.bind_ret hstatus, forCached_desk h.tidy h.cached, if_pos h.http, if_neg (by decide),
      if_pos rfl]
    rfl
  | restart =>
    change (restartDownload world (some row) d).2 = d
    rw [restartDownload, Proc.bind_ret hdest, Proc.bind_ret hid, Proc.bind_ret hstatus,
      forCached_desk h.tidy h.cached, if_pos h.http, if_neg (by decide)]
    rfl

theorem resumeDownload_unknown (h : HttpRow d.window row cells info)
    (hunknown : convDlStatStringToEnum (cells.getD mnStatusCol []) = .unknown) (world : World) :
    (Touches .resume world (cells.getD mnUrlCol []) (cells.getD mnDestinationCol []) d.db →
      HasStart (resumeDownload world (some row) d).2.sent) ∧
    (¬ Touches .resume world (cells.getD mnUrlCol []) (cells.getD mnDestinationCol []) d.db →
      Quiet d (resumeDownload world (some row) d).2) := by
  rcases h.reads with ⟨hdest, hid, hstatus⟩
  rw [hunknown] at hstatus
  rw [resumeDownload, Proc.bind_ret hdest, Proc.bind_ret hstatus, Proc.bind_ret hid,
    forCached_desk h.tidy h.cached, if_pos h.http, catchStd_desk, if_neg (by decide),
    if_pos (.inl rfl)]
  have hthen : ∀ p : Slot Unit, ((p >>= fun _ => pure true : Slot Bool) d).2 = (p d).2 :=
    fun p => bind_ret_desk p true d
  have hstart := startHttpDownload_desk h (by rw [hunknown]; decide) world
    (cells.getD mnDestinationCol [])
  unfold Touches Lets
  cases hfile : world.files (cells.getD mnDestinationCol []) with
  | error what =>
    have hthrow : isRegularFile world.files (cells.getD mnDestinationCol []) d =
        (.throw (.exception what), d) := by
      rw [isRegularFile, hfile]
      rfl
    rw [Proc.bind_throw hthrow]
    exact ⟨fun htouch => htouch.1.elim, fun _ => Quiet.refl d⟩
  | ok kind =>
    have hret : isRegularFile world.files (cells.getD mnDestinationCol []) d =
        (.ret (kind = .regular), d) := by
      rw [isRegularFile, hfile]
      rfl
    rw [Proc.bind_ret hret]
    by_cases hregular : kind = .regular
    · rw [if_pos (decide_eq_true hregular)]
      dsimp only
      rw [forall_prop_of_true hregular]
      -- the user is asked
      by_cases hyes : world.answer = .yes
      · have hor : world.answer = .yes ∨ world.answer = .no ∧
            Removes world (cells.getD mnDestinationCol []) := .inl hyes
        rw [if_pos hyes, hthen, and_iff_right hor]
        exact hstart true
      · by_cases hno : world.answer = .no
        · have hor : (world.answer = .yes ∨ world.answer = .no ∧
              Removes world (cells.getD mnDestinationCol [])) ↔
              Removes world (cells.getD mnDestinationCol []) := by
            rw [or_iff_right hyes, and_iff_right hno]
          rw [if_neg hyes, if_pos hno, hthen, hor]
          exact removeAndStart_desk h (by rw [hunknown]; decide) world _
        · rw [if_neg hyes, if_neg hno]
          refine ⟨fun htouch => ?_, fun _ => Quiet.refl d⟩
          rcases htouch.1 with h' | h'
          · exact absurd h' hyes
          · exact absurd h'.1 hno
    · rw [if_neg (by simpa using hregular), hthen,
        and_iff_right (fun hc => absurd hc hregular)]
      exact hstart false

theorem restartDownload_unknown (h : HttpRow d.window row cells info)
    (hunknown : convDlStatStringToEnum (cells.getD mnStatusCol []) = .unknown) (world : World) :
    (Touches .restart world (cells.getD mnUrlCol []) (cells.getD mnDestinationCol []) d.db →
      HasStart (restartDownload world (some row) d).2.sent) ∧
    (¬ Touches .restart world (cells.getD mnUrlCol []) (cells.getD mnDestinationCol []) d.db →
      Quiet d (restartDownload world (some row) d).2) := by
  rcases h.reads with ⟨hdest, hid, hstatus⟩
  rw [hunknown] at hstatus
  rw [restartDownload, Proc.bind_ret hdest, Proc.bind_ret hid, Proc.bind_ret hstatus,
    forCached_desk h.tidy h.cached, if_pos h.http, if_pos (by decide), catchStd_desk]
  have hthen : ∀ p : Slot Unit, ((p >>= fun _ => pure true : Slot Bool) d).2 = (p d).2 :=
    fun p => bind_ret_desk p true d
  have hremove := removeAndStart_desk h (by rw [hunknown]; decide) world
    (cells.getD mnDestinationCol [])
  unfold Touches
  by_cases hyes : world.answer = .yes
  · rw [if_pos hyes, hthen, and_iff_right hyes]
    exact hremove
  · rw [if_neg hyes]
    exact ⟨fun htouch => absurd htouch.1.1 hyes, fun _ => Quiet.refl d⟩

/-- The stop of a transfer, and the new status: what `pauseDownload` and `haltDownload` have
in common. -/
theorem stopped_desk (h : HttpRow d.window row cells info) (world : World) (dest : Str)
    (status : DownloadStatus) (rest : Slot Bool) (hrest : ∀ d, (rest d).2 = d) :
    (Known world.transfers dest ∧ ComesBack world dest status d.db →
      ((do
        sendStopDownload world dest
        storeStatus world dest status
        showStatus row status
        rest : Slot Bool) d).2.window = (d.withStatus row cells status).window) ∧
    (¬ (Known world.transfers dest ∧ ComesBack world dest status d.db) →
      Quiet d ((do
        sendStopDownload world dest
        storeStatus world dest status
        showStatus row status
        rest : Slot Bool) d).2) := by
  rcases sendStopDownload_cases world dest d with ⟨hknown, hstop⟩ | ⟨hknown, what, hstop⟩
  · rw [Proc.bind_ret hstop, and_iff_right hknown]
    rcases storeStatus_cases world dest status (d.withStop dest) with
      ⟨hback, db, hstore⟩ | ⟨hback, db, hstore⟩
    · have hshow := @showStatus_eq ((d.withStop dest).withDb db) row cells h.shown h.length status
      rw [Proc.bind_ret hstore, Proc.bind_ret hshow, hrest]
      exact ⟨fun _ => rfl, fun hnot => absurd hback hnot⟩
    · rw [Proc.bind_stuck hstore]
      refine ⟨fun hb => absurd hb hback, ?_⟩
      intro _
      exact (Quiet.withStop d dest).trans (Quiet.withDb _ db)
  · rw [Proc.bind_throw hstop]
    exact ⟨fun hboth => absurd hboth.1 hknown, fun _ => Quiet.withStop d dest⟩

theorem pauseDownload_unknown (h : HttpRow d.window row cells info)
    (hunknown : convDlStatStringToEnum (cells.getD mnStatusCol []) = .unknown) (world : World) :
    (Touches .pause world (cells.getD mnUrlCol []) (cells.getD mnDestinationCol []) d.db →
      (pauseDownload world (some row) d).2.window = (d.withStatus row cells .paused).window) ∧
    (¬ Touches .pause world (cells.getD mnUrlCol []) (cells.getD mnDestinationCol []) d.db →
      Quiet d (pauseDownload world (some row) d).2) := by
  rcases h.reads with ⟨hdest, hid, hstatus⟩
  rw [hunknown] at hstatus
  rw [pauseDownload, catchStd_desk, Proc.bind_ret hdest, Proc.bind_ret hid, Proc.bind_ret hstatus,
    if_pos (by decide), forCached_desk h.tidy h.cached, if_pos h.http, if_pos (by decide)]
  exact stopped_desk h world _ .paused (pure false) fun _ => rfl

/-- With `noRestart` nothing is started. -/
theorem askDeleteHttpItem_desk (world : World) (row : Nat) (fileDest uniqueId : Str) (d : Desk) :
    (askDeleteHttpItem world row fileDest uniqueId true d).2 = d := by
  have herase : (catchStd (do
      removeFile world fileDest
      pure true) false d).2 = d := by
    rw [catchStd_desk]
    cases hremove : world.remove fileDest with
    | none =>
      have hret : removeFile world fileDest d = (.ret (), d) := by
        rw [removeFile, hremove]
        rfl
      rw [Proc.bind_ret hret]
      rfl
    | some name =>
      have hthrow : removeFile world fileDest d = (.throw (.category name), d) := by
        rw [removeFile, hremove]
        rfl
      rw [Proc.bind_throw hthrow]
  unfold askDeleteHttpItem
  rcases world.files fileDest with what | kind
  · rfl
  · by_cases hyes : world.answer = .yes
    · rw [if_pos hyes]
      cases kind with
      | missing => rfl
      | directory => exact herase
      | regular => exact herase
      | other => exact herase
    · rw [if_neg hyes]
      cases kind <;> rfl

theorem haltDownload_unknown (h : HttpRow d.window row cells info)
    (hunknown : convDlStatStringToEnum (cells.getD mnStatusCol []) = .unknown) (world : World) :
    (Touches .halt world (cells.getD mnUrlCol []) (cells.getD mnDestinationCol []) d.db →
      (haltDownload world (some row) d).2.window = (d.withStatus row cells .stopped).window) ∧
    (¬ Touches .halt world (cells.getD mnUrlCol []) (cells.getD mnDestinationCol []) d.db →
      Quiet d (haltDownload world (some row) d).2) := by
  rcases h.reads with ⟨hdest, hid, hstatus⟩
  rw [hunknown] at hstatus
  rw [haltDownload, catchStd_desk, Proc.bind_ret hdest, Proc.bind_ret hid, Proc.bind_ret hstatus,
    forCached_desk h.tidy h.cached, if_pos h.http, if_neg (by decide), if_neg (by decide),
    if_neg (by decide)]
  refine stopped_desk h world _ .stopped _ ?_
  intro d
  exact (bind_ret_desk _ false d).trans (askDeleteHttpItem_desk world row _ _ d)

theorem getD_set_self {α : Type} {l : List α} {i : Nat} (h : i < l.length) (a b : α) :
    (l.set i a).getD i b = a := by
  rw [List.getD_eq_getElem?_getD, List.getElem?_set_self h, Option.getD_some]

/-- The row shows a text in its status cell, and no start was emitted. -/
def StaysDead (row : Nat) (status : DownloadStatus) (d : Desk) : Prop :=
  (d.window.vectorList.getD row []).getD mnStatusCol [] = convDlStatToString status ∧
    ¬ HasStart d.sent

/-- Two texts of the status cell. -/
theorem convDlStatToString_ne : convDlStatToString .paused ≠ convDlStatToString .invalid ∧
    convDlStatToString .stopped ≠ convDlStatToString .invalid := by decide

/-- A row that shows an invalid download stays so exactly if it is not touched. -/
theorem slot_invalid (h : HttpRow d.window row cells info) (hdead : StaysDead row .invalid d)
    (action : RowAction) (world : World) :
    (Touches action world (cells.getD mnUrlCol []) (cells.getD mnDestinationCol []) d.db →
      ¬ StaysDead row .invalid (action.slot world (some row) d).2) ∧
    (¬ Touches action world (cells.getD mnUrlCol []) (cells.getD mnDestinationCol []) d.db →
      Quiet d (action.slot world (some row) d).2) := by
  have hcells : d.window.vectorList.getD row [] = cells := by
    rw [List.getD_eq_getElem?_getD, h.shown, Option.getD_some]
  have hunknown : convDlStatStringToEnum (cells.getD mnStatusCol []) = .unknown := by
    rw [← hcells, hdead.1, convDlStatStringToEnum_toString, if_pos rfl]
  -- another status is another text
  have hshows : ∀ status d', convDlStatToString status ≠ convDlStatToString .invalid →
      d'.window = (d.withStatus row cells status).window → ¬ StaysDead row .invalid d' := by
    intro status d' hne hwindow hstays
    have hlt : row < d.window.vectorList.length := (List.getElem?_eq_some_iff.mp h.shown).1
    have hcolumn : mnStatusCol < cells.length := by
      rw [h.length]
      decide
    apply hne
    rw [← hstays.1, hwindow, Desk.withStatus]
    dsimp only
    rw [getD_set_self hlt, getD_set_self hcolumn]
  cases action with
  | resume =>
    have hresume := resumeDownload_unknown h hunknown world
    exact ⟨fun ht hstays => hstays.2 (hresume.1 ht), hresume.2⟩
  | restart =>
    have hrestart := restartDownload_unknown h hunknown world
    exact ⟨fun ht hstays => hstays.2 (hrestart.1 ht), hrestart.2⟩
  | pause =>
    have hpause := pauseDownload_unknown h hunknown world
    exact ⟨fun ht => hshows _ _ convDlStatToString_ne.1 (hpause.1 ht), hpause.2⟩
  | halt =>
    have hhalt := haltDownload_unknown h hunknown world
    exact ⟨fun ht => hshows _ _ convDlStatToString_ne.2 (hhalt.1 ht), hhalt.2⟩

end Slots

/-! ## Runs -/

/-- The desk, and whether a slot has not come back or was left by an exception. -/
structure Application where
  desk : Desk
  ended : Bool

/-- An action on the selected row. There is none any more when the application has ended. -/
def Application.step (selected : Option Nat) (app : Application) (a : World × RowAction) :
    Application :=
  if app.ended then app
  else match a.2.slot a.1 selected app.desk with
    | (.ret (), d) => ⟨d, false⟩
    | (_, d) => ⟨d, true⟩

theorem Application.step_desk (selected : Option Nat) (app : Application) (a : World × RowAction) :
    (app.step selected a).desk =
      if app.ended then app.desk else (a.2.slot a.1 selected app.desk).2 := by
  rw [Application.step]
  split
  · rfl
  · rcases a.2.slot a.1 selected app.desk with ⟨o, d⟩
    cases o <;> rfl

/-- The action leaves a dead row alone: it shows `Failed`, there is no application any more,
or the action does not get to the point where it would change something. -/
def LeavesDead (status : DownloadStatus) (url dest : Str) (app : Application)
    (a : World × RowAction) : Prop :=
  status = .failed ∨ app.ended = true ∨ ¬ Touches a.2 a.1 url dest app.desk.db

/-- One action on a dead row. -/
theorem step_dead {app : Application} {row : Nat} {cells : List Str} {info : DownloadInfo}
    (h : HttpRow app.desk.window row cells info) {status : DownloadStatus}
    (hstatus : status = .invalid ∨ status = .failed) (hdead : StaysDead row status app.desk)
    (a : World × RowAction) :
    (LeavesDead status (cells.getD mnUrlCol []) (cells.getD mnDestinationCol []) app a →
      Quiet app.desk (app.step (some row) a).desk) ∧
    (¬ LeavesDead status (cells.getD mnUrlCol []) (cells.getD mnDestinationCol []) app a →
      ¬ StaysDead row status (app.step (some row) a).desk) := by
  rw [Application.step_desk]
  unfold LeavesDead
  by_cases hended : app.ended = true
  · rw [if_pos hended]
    exact ⟨fun _ => Quiet.refl _, fun hnot => absurd (.inr (.inl hended)) hnot⟩
  rw [if_neg hended]
  rcases hstatus with rfl | rfl
  · rcases slot_invalid h hdead a.2 a.1 with ⟨htouched, hleft⟩
    constructor
    · rintro (hfailed | hend | hnot)
      · cases hfailed
      · exact absurd hend hended
      · exact hleft hnot
    · intro hnot
      apply htouched
      by_contra hno
      exact hnot (.inr (.inr hno))
  · have hcells : app.desk.window.vectorList.getD row [] = cells := by
      rw [List.getD_eq_getElem?_getD, h.shown, Option.getD_some]
    have hfailed : convDlStatStringToEnum (cells.getD mnStatusCol []) = .failed := by
      rw [← hcells, hdead.1, convDlStatStringToEnum_toString]
      rfl
    rw [slot_failed h hfailed]
    exact ⟨fun _ => Quiet.refl _, fun hnot => absurd (.inl rfl) hnot⟩

/-- **Dead downloads** stay dead in exactly the runs whose actions leave the row alone. -/
theorem staysDead_iff {d : Desk} {row : Nat} {cells : List Str} {info : DownloadInfo}
    (h : HttpRow d.window row cells info) {status : DownloadStatus}
    (hstatus : status = .invalid ∨ status = .failed) (hdead : StaysDead row status d)
    (as : List (World × RowAction)) :
    EachState (Application.step (some row)) (fun app => StaysDead row status app.desk)
        ⟨d, false⟩ as ↔
      EachStep (Application.step (some row))
        (LeavesDead status (cells.getD mnUrlCol []) (cells.getD mnDestinationCol []))
        ⟨d, false⟩ as := by
  -- the window stays the same as long as the row is left alone
  have hrow : ∀ app : Application, app.desk.window = d.window →
      HttpRow app.desk.window row cells info := by
    intro app hwindow
    rw [hwindow]
    exact h
  refine @eachState_iff_eachStep_of Application _ _ (fun app => app.desk.window = d.window) _ _
    ?_ ?_ ⟨d, false⟩ rfl
    hdead as
  · intro app a hwindow hdead hleaves
    exact ((step_dead (hrow app hwindow) hstatus hdead a).1 hleaves).window.trans hwindow
  · intro app a hwindow hdead
    rcases step_dead (hrow app hwindow) hstatus hdead a with ⟨hquiet, hchanged⟩
    constructor
    · intro hstays
      by_contra hnot
      exact hchanged hnot hstays
    · intro hleaves
      have hq := hquiet hleaves
      refine ⟨?_, fun hs => hdead.2 (hq.starts hs)⟩
      rw [hq.window]
      exact hdead.1

/-- The cells of an invalid download. -/
def invalidCells : List Str :=
  (newRowCells plainTexts { sampleRow ['1'] with status := .invalid }).map Prod.snd

def invalidInfo : DownloadInfo := ⟨.http, sampleInfo.fileLoc, ['1'], none, none⟩

/-- A window with this download, and an empty database. -/
def invalidDesk : Desk := ⟨⟨[invalidCells], [invalidInfo]⟩, emptyDb, [], 0⟩

/-- No file at the destination, a server that has ten bytes, and a hundred bytes free. -/
def sampleWorld : World where
  files := fun _ => .ok .missing
  filesLater := fun _ => .ok .missing
  remove := fun _ => none
  answer := .no
  freeDiskSpace := fun _ => 100
  curlGrabInfo := fun _ => .ok 10
  transfers := CurlMulti.start
  stopOrders := fun _ => (IterOrder.insertion _, IterOrder.insertion _)
  faults := Faults.none
  startTorrentDl := fun _ => pure ()

theorem invalidDesk_row : HttpRow invalidDesk.window 0 invalidCells invalidInfo where
  tidy := ⟨by decide, by decide, by decide⟩
  shown := rfl
  cached := List.mem_singleton_self _
  id := rfl
  http := .inl rfl

theorem invalidDesk_dead : StaysDead 0 .invalid invalidDesk := by
  refine ⟨by decide, ?_⟩
  rintro ⟨url, fileLoc, resumeDl, hmem⟩
  exact absurd hmem List.not_mem_nil

/-- A row that is paused, with no transfer of its file, and restarted stays invalid. -/
theorem staysDead_sample :
    EachState (Application.step (some 0)) (fun app => StaysDead 0 .invalid app.desk)
        ⟨invalidDesk, false⟩ [(sampleWorld, .pause), (sampleWorld, .restart)] ↔
      EachStep (Application.step (some 0))
        (LeavesDead .invalid (invalidCells.getD mnUrlCol []) (invalidCells.getD mnDestinationCol []))
        ⟨invalidDesk, false⟩ [(sampleWorld, .pause), (sampleWorld, .restart)] :=
  staysDead_iff invalidDesk_row (.inl rfl) invalidDesk_dead _

/-- An invalid download is resumed, and started. -/
theorem staysDead_resumed :
    HttpRow invalidDesk.window 0 invalidCells invalidInfo ∧ StaysDead 0 .invalid invalidDesk ∧
      (resumeDownload sampleWorld (some 0) invalidDesk).2.sent =
        [.startDownload "http://h/a.iso".toList sampleInfo.fileLoc false] ∧
      ¬ EachState (Application.step (some 0)) (fun app => StaysDead 0 .invalid app.desk)
        ⟨invalidDesk, false⟩ [(sampleWorld, .resume)] := by
  have hsent : (resumeDownload sampleWorld (some 0) invalidDesk).2.sent =
      [.startDownload "http://h/a.iso".toList sampleInfo.fileLoc false] := by decide +kernel
  refine ⟨invalidDesk_row, invalidDesk_dead, hsent, ?_⟩
  intro h
  have hlast := h.2.2
  apply hlast
  rw [Application.step_desk]
  exact ⟨_, _, _, hsent ▸ List.mem_singleton_self _⟩

end FyreDL.Gui
