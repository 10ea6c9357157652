import FyreDL.Store.Database
import FyreDL.Csv.Table
import FyreDL.Store.Index
import FyreDL.Store.Registration
import FyreDL.Store.CurlItems
import FyreDL.Store.CurlSpec
import FyreDL.Store.CurlRecord
import FyreDL.Store.Deletion
import FyreDL.Store.CurlFaults
import FyreDL.Lib.KvTrace
import FyreDL.Store.TorrentItems
import FyreDL.Store.TorrentSpec
import FyreDL.Store.TorrentRead
import FyreDL.Store.TorrentRecord
import FyreDL.Gui.FileHash
import FyreDL.Gui.DlFinished
import FyreDL.Lib.Run
import FyreDL.Transfer.CurlMulti
import FyreDL.Transfer.Steps
import FyreDL.Transfer.Invariants
import FyreDL.Transfer.Counting
import FyreDL.Transfer.Stopping
import FyreDL.Transfer.Finished
import FyreDL.Transfer.Disk
import FyreDL.Store.Addenda
import FyreDL.Store.GeneralRecord
import FyreDL.Store.KeySpace
import FyreDL.Csv.Ending
import FyreDL.Csv.Interleaved
import FyreDL.Lib.KvThreads
import FyreDL.Store.Concurrent
import FyreDL.Process.SingletonProcess
import FyreDL.Torrent.Client
import FyreDL.Csv.Lines
import FyreDL.Store.NewRow
import FyreDL.Gui.DownloadModel
import FyreDL.Gui.MainWindow
import FyreDL.Gui.Agreement
import FyreDL.Lib.Proc
import FyreDL.Store.Modification
import FyreDL.Transfer.Repeated
import FyreDL.Gui.Actions
import FyreDL.Gui.DeadRows
import FyreDL.Transfer.Finalising
import FyreDL.Gui.HashSearch
import FyreDL.Store.ReadFaults
import FyreDL.Store.Readers
import FyreDL.Csv.EmptyCells
import FyreDL.Gui.Statistics
import FyreDL.Gui.XferStats
import FyreDL.Gui.NewDownload
import FyreDL.Lib.Sink
import FyreDL.Transfer.WriteCallback
import FyreDL.Gui.ContentsView
import FyreDL.Gui.ContentsPaths
import FyreDL.Gui.AddUrl
import FyreDL.Gui.Clearing
import FyreDL.Gui.Startup
import FyreDL.Gui.Removals
import FyreDL.Torrent.Session
import FyreDL.Torrent.Attribution
import FyreDL.Store.History
import FyreDL.Lib.KvCompletion
import FyreDL.Lib.KvSerial
import FyreDL.Store.Additions
import FyreDL.Csv.FastReader
import FyreDL.Gui.CsvImport
import FyreDL.Gui.TorrentImport
import FyreDL.Gui.Restart
