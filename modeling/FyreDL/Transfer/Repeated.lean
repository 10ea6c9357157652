import FyreDL.Store.Modification
import FyreDL.Transfer.Finished

/-!
# FyreDL.Transfer.Repeated — signals that are delivered more than once

`pauseDownload`, `haltDownload` and `startHttpDownload` connect their signals again each
time, and a signal is delivered once for each connection.

* `not_stoppable_stopDl` — a stop leaves no active entry of its file that it would find, so
  the stops behind it change nothing.
* `receive_cases` — a `recvDlFinished` changes nothing, whatever the clock and the order of
  the hash map, or it marks the row of its file as completed.
* `repeated_delivery` — signals that are repeated leave what a single one leaves.
-/

namespace FyreDL.Transfer

open Lib Lib.Kv Store Gui

/-! ## Stops -/

section Stops

variable {cm : CurlMulti} {fileLoc : Str}

/-- The two searches of `recvStopDl` find something. -/
def Known (cm : CurlMulti) (fileLoc : Str) : Prop :=
  (∃ conn ∈ cm.ehVec, conn.2.fileLoc = fileLoc) ∧
    ∃ entry ∈ cm.transferMonitoring, entry.2.fileDest = fileLoc

/-- They find something, and an entry of the file is active. -/
def Stoppable (cm : CurlMulti) (fileLoc : Str) : Prop :=
  (∃ conn ∈ cm.ehVec, conn.2.fileLoc = fileLoc) ∧
    ∃ entry ∈ cm.transferMonitoring, entry.2.fileDest = fileLoc ∧ entry.2.isActive = true

theorem findConn_isSome {ehOrder : IterOrder (Uuid × CurlInit)}
    (h : ∃ conn ∈ cm.ehVec, conn.2.fileLoc = fileLoc) :
    ∃ conn, findConn ehOrder fileLoc cm = some conn := by
  cases hfind : findConn ehOrder fileLoc cm with
  | some conn => exact ⟨conn, rfl⟩
  | none =>
    rcases h with ⟨conn, hconn, hfile⟩
    exact absurd (decide_eq_true hfile) (ehOrder.find?_none hfind conn hconn)

theorem findDl_isSome {order : IterOrder (Uuid × ActiveDownloads)}
    (h : ∃ entry ∈ cm.transferMonitoring, entry.2.fileDest = fileLoc) :
    ∃ entry, findDl order fileLoc cm = some entry := by
  cases hfind : findDl order fileLoc cm with
  | some entry => exact ⟨entry, rfl⟩
  | none =>
    rcases h with ⟨entry, hentry, hfile⟩
    exact absurd hfile (findDl_none hfind entry hentry)

/-- A stop returns exactly if both searches find something, and then they still do. -/
theorem recvStopDl_ok_iff (ehOrder : IterOrder (Uuid × CurlInit))
    (order : IterOrder (Uuid × ActiveDownloads)) :
    (∃ cm', recvStopDl ehOrder order fileLoc cm = .ok cm') ↔ Known cm fileLoc := by
  constructor
  · rintro ⟨cm', hrun⟩
    rcases recvStopDl_cases ehOrder order cm fileLoc with
      ⟨-, hthrow⟩ | ⟨conn, entry, hconn, hentry, -⟩
    · rw [hthrow] at hrun
      cases hrun
    · exact ⟨⟨conn, findConn_some hconn⟩, ⟨entry, findDl_some hentry⟩⟩
  · rintro ⟨hconn, hentry⟩
    rcases @findConn_isSome cm fileLoc ehOrder hconn with ⟨conn, hconn⟩
    rcases @findDl_isSome cm fileLoc order hentry with ⟨entry, hentry⟩
    rcases recvStopDl_cases ehOrder order cm fileLoc with
      ⟨hnone | hnone, -⟩ | ⟨conn, entry, -, -, hrun⟩
    · rw [hconn] at hnone
      cases hnone
    · rw [hentry] at hnone
      cases hnone
    · exact ⟨_, hrun⟩

theorem known_recvStopDl {ehOrder : IterOrder (Uuid × CurlInit)}
    {order : IterOrder (Uuid × ActiveDownloads)} {cm' : CurlMulti}
    (h : recvStopDl ehOrder order fileLoc cm = .ok cm') : Known cm' fileLoc := by
  have hknown : Known cm fileLoc := (recvStopDl_ok_iff ehOrder order).mp ⟨cm', h⟩
  rcases recvStopDl_cases ehOrder order cm fileLoc with
    ⟨-, hthrow⟩ | ⟨conn, entry, -, hentry, hrun⟩
  · rw [hthrow] at h
    cases h
  · rw [hrun] at h
    cases h
    split
    · exact ⟨hknown.1, _, mem_assign.mpr (.inr rfl), (findDl_some hentry).2⟩
    · exact hknown

/-- The connected slots, called in turn until one of them throws. -/
def deliverStop (orders : List (IterOrder (Uuid × CurlInit) × IterOrder (Uuid × ActiveDownloads)))
    (fileLoc : Str) (cm : CurlMulti) : Except Str CurlMulti :=
  orders.foldlM (fun cm o => recvStopDl o.1 o.2 fileLoc cm) cm

/-- If the first of them returns, they all do. -/
theorem deliverStop_ok_iff
    {orders : List (IterOrder (Uuid × CurlInit) × IterOrder (Uuid × ActiveDownloads))}
    (hne : orders ≠ []) :
    (∃ cm', deliverStop orders fileLoc cm = .ok cm') ↔ Known cm fileLoc := by
  have hall : ∀ orders cm, Known cm fileLoc → ∃ cm', deliverStop orders fileLoc cm = .ok cm' := by
    intro orders
    induction orders with
    | nil => exact fun cm _ => ⟨cm, rfl⟩
    | cons o orders ih =>
      -- a slot that returns leaves the file known for the next one
      intro cm hknown
      rcases (recvStopDl_ok_iff o.1 o.2).mpr hknown with ⟨cm₁, hrun⟩
      rcases ih cm₁ (known_recvStopDl hrun) with ⟨cm', hrest⟩
      refine ⟨cm', ?_⟩
      rw [deliverStop, List.foldlM_cons, hrun]
      exact hrest
  refine ⟨fun h => ?_, hall orders cm⟩
  rcases List.exists_cons_of_ne_nil hne with ⟨o, rest, rfl⟩
  rcases h with ⟨cm', hrun⟩
  rw [deliverStop, List.foldlM_cons] at hrun
  cases hfirst : recvStopDl o.1 o.2 fileLoc cm with
  | ok cm₁ => exact (recvStopDl_ok_iff o.1 o.2).mp ⟨cm₁, hfirst⟩
  | error what =>
    rw [hfirst] at hrun
    cases hrun

/-- Where nothing can be stopped, a stop changes nothing. -/
theorem stopDl_of_not_stoppable (h : ¬ Stoppable cm fileLoc)
    (ehOrder : IterOrder (Uuid × CurlInit)) (order : IterOrder (Uuid × ActiveDownloads)) :
    step cm (.stopDl ehOrder order fileLoc) = cm := by
  rcases step_stopDl ehOrder order cm fileLoc with
    hrun | ⟨conn, entry, hconn, hentry, hactive, -⟩
  · exact hrun
  · rcases findDl_some hentry with ⟨hmem, hfile⟩
    exact absurd ⟨⟨conn, findConn_some hconn⟩, entry, hmem, hfile, hactive⟩ h

/-- Behind a stop nothing can be stopped, whichever entries it has picked. -/
theorem not_stoppable_stopDl (hm : Monitored cm.transferMonitoring)
    (ehOrder : IterOrder (Uuid × CurlInit)) (order : IterOrder (Uuid × ActiveDownloads)) :
    ¬ Stoppable (step cm (.stopDl ehOrder order fileLoc)) fileLoc := by
  by_cases hstoppable : Stoppable cm fileLoc
  · rcases hstoppable with ⟨hconn, active, hactive, hfile, hflag⟩
    rcases recvStopDl_cases ehOrder order cm fileLoc with
      ⟨-, hthrow⟩ | ⟨conn, entry, -, hentry, hrun⟩
    · rcases (recvStopDl_ok_iff ehOrder order).mpr ⟨hconn, active, hactive, hfile⟩ with ⟨_, hok⟩
      rw [hthrow] at hok
      cases hok
    · -- the entry of the file is the active one, and is not any more
      rcases findDl_some hentry with ⟨hmem, hfile'⟩
      obtain rfl : active = entry := hm.eq_of_file hactive hmem (hfile.trans hfile'.symm)
      rw [step, hrun, if_pos hflag]
      rintro ⟨-, e, he, hefile, heflag⟩
      rcases mem_assign.mp he with ⟨hold, hkey⟩ | rfl
      · exact hkey (congrArg Prod.fst (hm.eq_of_file hold hmem (hefile.trans hfile.symm)))
      · cases heflag
  · rwa [stopDl_of_not_stoppable hstoppable]

end Stops

/-! ## Finished downloads -/

section Receptions

variable {status : DlStatusMsg} {w : Window}

/-- Whether an index can be shown, and which records are, does not depend on the order of
the hash map. -/
theorem readCurlItems_shown (s : Db) :
    (∀ ord, run (readCurlItems ord) s = (.hung, s)) ∨
    ∃ shown : CurlDlInfo → Prop, ∀ ord, ∃ infos, run (readCurlItems ord) s = (.ret infos, s) ∧
      ∀ info, info ∈ infos ↔ shown info := by
  rcases extractDownloadIds_eq false with ⟨c, hprog, hc⟩
  have hrun : run (extractDownloadIds false) s =
      run (c (.ofOption (s leveldbStoreUniqueId))) s := by
    rw [hprog]
    rfl
  cases hrows : textRows ((s leveldbStoreUniqueId).getD []) with
  | some rows =>
    right
    have hextract : run (extractDownloadIds false) s =
        (.ret (extracted false (rows.map rowEntry)), s) := by
      rw [hrun, (hc _).1 rows hrows]
      rfl
    by_cases hread : ∀ e ∈ extracted false (rows.map rowEntry), IsCurl e → CurlReadable s e
    · -- the records are those of the entries, in the order of the map
      refine ⟨fun info => ∃ e ∈ extracted false (rows.map rowEntry), IsCurl e ∧
        storedRecord s e = info, fun ord => ⟨_, run_readCurlItems ord hextract hread, ?_⟩⟩
      intro info
      rw [List.mem_map]
      constructor
      · rintro ⟨e, he, heq⟩
        rcases List.mem_filter.mp he with ⟨hmem, hcurl⟩
        exact ⟨e, ord.mem_order.mp hmem, of_decide_eq_true hcurl, heq⟩
      · rintro ⟨e, he, hcurl, heq⟩
        exact ⟨e, List.mem_filter.mpr ⟨ord.mem_order.mpr he, decide_eq_true hcurl⟩, heq⟩
    · -- one value that cannot be read hides all records
      push Not at hread
      exact ⟨fun _ => False, fun ord => ⟨[], run_readCurlItems_empty ord hextract hread,
        fun info => iff_of_false List.not_mem_nil not_false⟩⟩
  | none =>
    rcases (hc _).2 hrows with hhang | ⟨what, hthrow⟩
    · left
      intro ord
      rw [readCurlItems, run_tryCatch, run_bind, hrun, hhang]
      rfl
    · right
      refine ⟨fun _ => False, fun ord => ⟨[], ?_, fun info => iff_of_false List.not_mem_nil
        not_false⟩⟩
      rw [readCurlItems, run_tryCatch, run_bind, hrun, hthrow]
      rfl

/-- A file is hashed with an exception exactly if it has a record and is locked. -/
theorem hashFinished_error_iff (digest : Digest) (disk : Str → DiskFile) (fileLoc : Str)
    (infos : List CurlDlInfo) :
    (∃ what, hashFinished digest disk fileLoc infos = .error what) ↔
      (∃ info ∈ infos, info.fileLoc = fileLoc) ∧ disk fileLoc = .locked := by
  unfold hashFinished
  cases hfind : infos.find? fun info => info.fileLoc = fileLoc with
  | none =>
    refine iff_of_false (by simp) ?_
    rintro ⟨⟨info, hinfo, hfile⟩, -⟩
    exact List.find?_eq_none.mp hfind info hinfo (decide_eq_true hfile)
  | some info =>
    have hrecord : ∃ info ∈ infos, info.fileLoc = fileLoc :=
      ⟨info, List.mem_of_find?_eq_some hfind, by simpa using List.find?_some hfind⟩
    rw [and_iff_right hrecord]
    dsimp only
    -- whichever type is hashed
    split
    · exact cryptoFileHash_error_iff digest
    · exact cryptoFileHash_error_iff digest
    · exact cryptoFileHash_error_iff digest

/-- `modifyCurlItem` returns, or the reader of the index never ends. -/
theorem modifyCurlItem_settles (s : Db) (fileLoc : Str) :
    (∀ status now given hashType rtrnd verdict, ∃ result s',
      run (modifyCurlItem fileLoc status now given hashType rtrnd verdict) s = (.ret result, s')) ∨
    ∀ status now given hashType rtrnd verdict,
      run (modifyCurlItem fileLoc status now given hashType rtrnd verdict) s = (.hung, s) := by
  have hreads := run_readsOnly (readsOnly_determineDownloadId fileLoc) s
  rcases hdetermine : run (determineDownloadId fileLoc) s with ⟨o, s'⟩
  obtain rfl : s' = s := by rwa [hdetermine] at hreads
  cases o with
  | ret answer =>
    left
    intro status now given hashType rtrnd verdict
    by_cases hid : answer.1 = []
    · rcases answer with ⟨id, isTorrent⟩
      obtain rfl : id = [] := hid
      exact ⟨_, _, run_modifyCurlItem_none hdetermine _ _ _ _ _ _⟩
    · exact ⟨_, _, run_modifyCurlItem hdetermine hid _ _ _ _ _ _⟩
  | throw what =>
    left
    intro status now given hashType rtrnd verdict
    refine ⟨false, s', ?_⟩
    rw [modifyCurlItem, run_tryCatch, run_bind_throw hdetermine]
    rfl
  | hung =>
    right
    intro status now given hashType rtrnd verdict
    rw [modifyCurlItem, run_tryCatch, run_bind, hdetermine]
    rfl
  | stopped => exact absurd (congrArg Prod.fst hdetermine) (run_ne_stopped _ _)

/-- The first row that a message is about. -/
theorem exists_first {rows : List DlRow} (h : ∃ row ∈ rows, isFinishedRow status row = true) :
    ∃ before row after, rows = before ++ row :: after ∧
      (∀ r ∈ before, isFinishedRow status r = false) ∧ isFinishedRow status row = true := by
  rcases hfind : rows.find? (isFinishedRow status) with _ | row
  · rcases h with ⟨row, hmem, hrow⟩
    exact absurd hrow (List.find?_eq_none.mp hfind row hmem)
  · rcases List.find?_eq_some_iff_append.mp hfind with ⟨hrow, before, after, hrows, hbefore⟩
    exact ⟨before, row, after, hrows, fun r hr => by simpa using hbefore r hr, hrow⟩

theorem run_finishFirst_first {finish : DlRow → DbProg DlRow} {before after : List DlRow}
    {row : DlRow} (hbefore : ∀ r ∈ before, isFinishedRow status r = false)
    (hrow : isFinishedRow status row = true) (s : Db) :
    run (finishFirst finish status (before ++ row :: after)) s =
      Outcome.andThen (run (finish row) s) fun row' s' =>
        (.ret (before ++ row' :: after), s') := by
  induction before with
  | nil =>
    rw [List.nil_append, finishFirst, if_pos hrow, run_bind]
    rfl
  | cons r before ih =>
    have hr : ¬ isFinishedRow status r = true := by
      rw [hbefore r List.mem_cons_self]
      exact Bool.false_ne_true
    rw [List.cons_append, finishFirst, if_neg hr, run_bind,
      ih fun r' hr' => hbefore r' (List.mem_cons_of_mem _ hr')]
    rcases run (finish row) s with ⟨o, s'⟩
    cases o <;> rfl

theorem run_finishFirst_none {finish : DlRow → DbProg DlRow} {rows : List DlRow}
    (h : ∀ row ∈ rows, isFinishedRow status row = false) (s : Db) :
    run (finishFirst finish status rows) s = (.ret rows, s) := by
  induction rows with
  | nil => rfl
  | cons row rows ih =>
    have hrow : ¬ isFinishedRow status row = true := by
      rw [h row List.mem_cons_self]
      exact Bool.false_ne_true
    rw [finishFirst, if_neg hrow, run_bind_ret (ih fun r hr => h r (List.mem_cons_of_mem _ hr))]
    rfl

theorem markFinished_first {before after : List DlRow} {row : DlRow}
    (hbefore : ∀ r ∈ before, isFinishedRow status r = false)
    (hrow : isFinishedRow status row = true) :
    markFinished status (before ++ row :: after) = before ++ finishedRow status row :: after := by
  induction before with
  | nil => rw [List.nil_append, markFinished, if_pos hrow, List.nil_append]
  | cons r before ih =>
    have hr : ¬ isFinishedRow status r = true := by
      rw [hbefore r List.mem_cons_self]
      exact Bool.false_ne_true
    rw [List.cons_append, markFinished, if_neg hr,
      ih fun r' hr' => hbefore r' (List.mem_cons_of_mem _ hr'), List.cons_append]

/-- A row that has been marked is not found again, nor is another one of its file. -/
theorem markFinished_settled {rows : List DlRow} (hnodup : (rows.map DlRow.destination).Nodup)
    (h : ∃ row ∈ rows, isFinishedRow status row = true) :
    ∀ row ∈ markFinished status rows, isFinishedRow status row = false := by
  rcases exists_first h with ⟨before, row, after, rfl, hbefore, hrow⟩
  have hfile : row.destination = status.fileLoc := (of_decide_eq_true hrow).1
  rw [List.map_append, List.map_cons, List.nodup_append, List.nodup_cons] at hnodup
  rw [markFinished_first hbefore hrow]
  intro r hr
  rcases List.mem_append.mp hr with hin | hin
  · exact hbefore r hin
  rcases List.mem_cons.mp hin with rfl | hin
  · -- the marked row is completed
    have hcompleted : convDlStatStringToEnum (finishedRow status row).status = .completed :=
      convDlStatStringToEnum_toString .completed
    rw [isFinishedRow, hcompleted]
    simp
  · have hne : r.destination ≠ status.fileLoc := by
      intro heq
      exact hnodup.2.1.1 (hfile.trans heq.symm ▸ List.mem_map_of_mem hin)
    rw [isFinishedRow]
    simp [hne]

/-- The window after the loop over the rows. -/
theorem receive_eq (reception : Reception) (status : DlStatusMsg) (w : Window) :
    receive reception status w =
      match run (finishFirst (finishRow reception.digest reception.disk reception.order
        reception.now status) status w.rows) w.db with
      | (.ret rows, db) => ⟨rows, db⟩
      | (_, db) => ⟨w.rows, db⟩ := by
  rw [receive, recvDlFinished, run_tryCatch, run_bind]
  rcases run (finishFirst _ status w.rows) w.db with ⟨o, s⟩
  cases o <;> rfl

/-- A table without a row of the file that is downloading stays as it is. -/
theorem receive_none (reception : Reception)
    (h : ∀ row ∈ w.rows, isFinishedRow status row = false) : receive reception status w = w := by
  rw [receive_eq, run_finishFirst_none h]

/-- A row whose treatment does not return leaves the window as it is. -/
theorem receive_stuck {reception : Reception} {rows : List DlRow} {db : Db}
    (hfound : ∃ before row after, rows = before ++ row :: after ∧
      (∀ r ∈ before, isFinishedRow status r = false) ∧ isFinishedRow status row = true)
    (h : ∀ row, ∃ o, run (finishRow reception.digest reception.disk reception.order reception.now
      status row) db = (o, db) ∧ ∀ row', o ≠ .ret row') :
    receive reception status ⟨rows, db⟩ = ⟨rows, db⟩ := by
  rcases hfound with ⟨before, row, after, rfl, hbefore, hrow⟩
  rcases h row with ⟨o, hrun, hnot⟩
  rw [receive_eq, run_finishFirst_first hbefore hrow, hrun]
  cases o with
  | ret row' => exact absurd rfl (hnot row')
  | throw what => rfl
  | hung => rfl
  | stopped => rfl

/-- **What a `recvDlFinished` can do**: nothing, and then it does nothing whatever the clock
and the order of the hash map are, or it marks a row. -/
theorem receive_cases (reception : Reception) (status : DlStatusMsg) (w : Window) :
    (∀ again : Reception, again.disk = reception.disk → receive again status w = w) ∨
      ((∃ row ∈ w.rows, isFinishedRow status row = true) ∧
        (receive reception status w).rows = markFinished status w.rows) := by
  rcases w with ⟨rows, db⟩
  by_cases hrow : ∃ row ∈ rows, isFinishedRow status row = true
  · have hfound := exists_first hrow
    rcases readCurlItems_shown db with hhung | ⟨shown, hshown⟩
    · -- the records are never shown
      left
      intro again _
      apply receive_stuck hfound
      intro row
      rw [finishRow, run_bind, hhung]
      exact ⟨_, rfl, fun _ h => by cases h⟩
    by_cases hthrows : (∃ info, shown info ∧ info.fileLoc = status.fileLoc) ∧
        reception.disk status.fileLoc = .locked
    · -- the file cannot be hashed, in whichever order the records come
      left
      intro again hdisk
      apply receive_stuck hfound
      intro row
      rcases hshown again.order with ⟨infos, hinfos, hmem⟩
      rcases hthrows with ⟨⟨info, hinfo, hfile⟩, hlocked⟩
      rcases (hashFinished_error_iff again.digest again.disk status.fileLoc infos).mpr
        ⟨⟨info, (hmem info).mpr hinfo, hfile⟩, hdisk ▸ hlocked⟩ with ⟨what, hhash⟩
      rw [finishRow, run_bind_ret hinfos, hhash]
      exact ⟨_, rfl, fun _ h => by cases h⟩
    · -- the file is hashed, and it depends on the index whether the item is written
      have hfinish : ∀ again : Reception, again.disk = reception.disk →
          ∃ fileHash : FileHash, ∀ row,
          run (finishRow again.digest again.disk again.order again.now status row) db =
            Outcome.andThen (run (modifyCurlItem status.fileLoc .completed again.now
              fileHash.checksum fileHash.hashType [] .notApplicable) db)
              fun _ s => (.ret (finishedRow status row), s) := by
        intro again hdisk
        rcases hshown again.order with ⟨infos, hinfos, hmem⟩
        cases hhash : hashFinished again.digest again.disk status.fileLoc infos with
        | error what =>
          rcases (hashFinished_error_iff _ _ _ _).mp ⟨what, hhash⟩ with
            ⟨⟨info, hinfo, hfile⟩, hlocked⟩
          exact absurd ⟨⟨info, (hmem info).mp hinfo, hfile⟩, hdisk ▸ hlocked⟩ hthrows
        | ok fileHash =>
          refine ⟨fileHash, ?_⟩
          intro row
          rw [finishRow, run_bind_ret hinfos, hhash]
          dsimp only
          rw [run_bind]
          rfl
      rcases modifyCurlItem_settles db status.fileLoc with hreturns | hnot
      · right
        refine ⟨hrow, ?_⟩
        rcases hfinish reception rfl with ⟨fileHash, hrun⟩
        rcases hreturns .completed reception.now fileHash.checksum fileHash.hashType []
          .notApplicable with ⟨result, db', hmodify⟩
        rcases hfound with ⟨before, row, after, rfl, hbefore, hfirst⟩
        rw [receive_eq, run_finishFirst_first hbefore hfirst, hrun, hmodify,
          markFinished_first hbefore hfirst]
        rfl
      · left
        intro again hdisk
        apply receive_stuck hfound
        intro row
        rcases hfinish again hdisk with ⟨fileHash, hrun⟩
        rw [hrun, hnot]
        exact ⟨_, rfl, fun _ h => by cases h⟩
  · left
    intro again _
    apply receive_none
    intro row hmem
    by_contra hne
    exact hrow ⟨row, hmem, by simpa using hne⟩

end Receptions

/-- **Repeated signals.** Stops of a file that are delivered in a row leave what the first
one leaves. So do the signals that a download is finished, in a table with one row at most
for each destination. -/
theorem repeated_delivery :
    (∀ (as : List Action) (fileLoc : Str)
        (first : IterOrder (Uuid × CurlInit) × IterOrder (Uuid × ActiveDownloads))
        (more : List (IterOrder (Uuid × CurlInit) × IterOrder (Uuid × ActiveDownloads))),
      ((first :: more).map fun o => Action.stopDl o.1 o.2 fileLoc).foldl step
          (as.foldl step CurlMulti.start) =
        step (as.foldl step CurlMulti.start) (.stopDl first.1 first.2 fileLoc)) ∧
    ∀ (w : Window) (status : DlStatusMsg) (first : Reception) (more : List Reception),
      (w.rows.map DlRow.destination).Nodup → (∀ r ∈ more, r.disk = first.disk) →
      (first :: more).foldl (fun w r => receive r status w) w = receive first status w := by
  constructor
  · intro as fileLoc first more
    set cm := as.foldl step CurlMulti.start
    have hm : Monitored cm.transferMonitoring :=
      @run_invariant_always _ _ step (fun cm => Monitored cm.transferMonitoring) step_monitored
        _ monitored_start as
    have hsettled := @not_stoppable_stopDl cm fileLoc hm first.1 first.2
    rw [List.map_cons, List.foldl_cons]
    apply run_fixed
    intro a ha
    rcases List.mem_map.mp ha with ⟨o, -, rfl⟩
    exact stopDl_of_not_stoppable hsettled o.1 o.2
  · intro w status first more hnodup hdisk
    rw [List.foldl_cons]
    rcases receive_cases first status w with hfixed | ⟨hrow, hrows⟩
    · rw [hfixed first rfl]
      exact run_fixed fun r hr => hfixed r (hdisk r hr)
    · apply run_fixed
      intro r hr
      apply receive_none
      rw [hrows]
      exact markFinished_settled hnodup hrow

/-- The sample download and another one. -/
def twoRows : List DlRow := sampleRows ++ [downloadingRow "/dl/b.iso".toList]

def sampleReception : Reception := ⟨sampleDigest, sampleDisk, IterOrder.insertion _, 9⟩

/-- The sample download is finished, and the signal comes twice, five seconds apart: its
record has the time of the first one. -/
theorem repeated_delivery_sample :
    [sampleReception, { sampleReception with now := 14 }].foldl
        (fun w r => receive r timedOutStatus w) ⟨twoRows, startedDb⟩ =
      receive sampleReception timedOutStatus ⟨twoRows, startedDb⟩ ∧
      (receive sampleReception timedOutStatus ⟨twoRows, startedDb⟩).rows.map DlRow.status =
        [convDlStatToString .completed, convDlStatToString .downloading] ∧
      (run (readCurlItems (IterOrder.insertion Entry))
        (receive sampleReception timedOutStatus ⟨twoRows, startedDb⟩).db).1 =
        .ret [{ startedInfo with dlStatus := .completed, compltTimestamp := 9 }] := by
  refine ⟨?_, by decide +kernel, by decide +kernel⟩
  apply repeated_delivery.2
  · decide
  · intro r hr
    rw [List.mem_singleton.mp hr]

end FyreDL.Transfer
