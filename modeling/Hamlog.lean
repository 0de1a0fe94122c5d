import Hamlog.Wire.RequestStream
import Hamlog.Wire.ContentFraming
import Hamlog.Wire.ReplyRoundTrip
import Hamlog.Library.Connection
import Hamlog.Wire.Fragmentation
import Hamlog.Server.SessionOrder
import Hamlog.Server.Responders.QrzAnswers
import Hamlog.Foundation.Relational
import Hamlog.Server.StorageBackend
import Hamlog.Server.Responders.LogBook
import Hamlog.Server.Responders.LogBookReads
import Hamlog.Server.AuthenticationGate
import Hamlog.Server.Responders.LogBookWrites
import Hamlog.Server.Responders.LogBookRoundTrip
import Hamlog.Server.Responders.LogBookAtomicity
import Hamlog.Library.HashTableMap
import Hamlog.Wire.ModuleTable
import Hamlog.Wire.CoalescedReplies
import Hamlog.Library.MalformedData
import Hamlog.Library.BufferBounds
import Hamlog.Library.ReplyMatching
import Hamlog.Library.Descriptors
import Hamlog.Server.Responders.LoginHeader
import Hamlog.Server.Responders.DigestText
import Hamlog.Ui.LogbookTree
import Hamlog.Ui.RecordIdentity
import Hamlog.Server.Responders.Register
import Hamlog.Library.Account
import Hamlog.Wire.LoginExchange
import Hamlog.Library.HashTableRemove
import Hamlog.Library.Signals
import Hamlog.Library.CsvWriter
import Hamlog.Library.Fetches
import Hamlog.Wire.CsvReaders
import Hamlog.Wire.HeaderSection
import Hamlog.Wire.RequestGrammar
import Hamlog.Server.Responders.QrzLeftovers
import Hamlog.Server.Responders.DXCluster
import Hamlog.Wire.CsvTables
import Hamlog.Library.CsvReference
import Hamlog.Foundation.LongestPrefix
import Hamlog.Server.Responders.Dxcc
import Hamlog.Server.Responders.DxccCalls
import Hamlog.Server.Responders.LogBookRemoval
import Hamlog.Server.Responders.LogBookBatch
import Hamlog.Server.Responders.LogBookStored
import Hamlog.Server.PrimaryKeys
import Hamlog.Server.Responders.QrzUsers
import Hamlog.Server.Responders.QrzRounds
import Hamlog.Foundation.Cursor
import Hamlog.Server.Responders.DigestWalk
import Hamlog.Library.DigestFields
import Hamlog.Library.LoginChallenge
import Hamlog.Wire.CallFetch
import Hamlog.Server.SessionStop
import Hamlog.Server.Responders.DXClusterReader
import Hamlog.Foundation.LinkedHeap
import Hamlog.Library.LinkedList
import Hamlog.Library.HashTableKeys
import Hamlog.Library.HashTableLedger
import Hamlog.Library.ReadBuffer
import Hamlog.Foundation.Loop
import Hamlog.Library.ReadTermination
import Hamlog.Library.KeyBuffers
import Hamlog.Foundation.Printing
import Hamlog.Library.Serializers
import Hamlog.Wire.Md5Digest
import Hamlog.Server.InstalledModules
import Hamlog.Ui.LogbookFetch
import Hamlog.Ui.NewRecordDialog
import Hamlog.Ui.SignOn
