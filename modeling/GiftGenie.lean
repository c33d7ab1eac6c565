import GiftGenie.Library.ListSet
import GiftGenie.Library.SerialHistory
import GiftGenie.Library.Mirror
import GiftGenie.Library.Machine
import GiftGenie.Library.Termination
import GiftGenie.Library.JoinedWords
import GiftGenie.Library.Histories
import GiftGenie.Library.Gregorian
import GiftGenie.Library.VersionedStore
import GiftGenie.Library.OrderedTable
import GiftGenie.Library.Outbox
import GiftGenie.Firestore
import GiftGenie.ListTransactions
import GiftGenie.ListHistories
import GiftGenie.Mutations
import GiftGenie.MutationQueue
import GiftGenie.LocalDocuments
import GiftGenie.LocalStore
import GiftGenie.WriteStream
import GiftGenie.WritePipeline
import GiftGenie.WriteCounts
import GiftGenie.WriteSteps
import GiftGenie.WriteEffects
import GiftGenie.WriteRuns
import GiftGenie.WriteOutbox
import GiftGenie.WriteViews
import GiftGenie.Transactions
import GiftGenie.TransactionRuns
import GiftGenie.TransactionContention
import GiftGenie.ListTransactionRuns
import GiftGenie.ContactBalance
import GiftGenie.ListContracts
import GiftGenie.CommutingCalls
import GiftGenie.Contacts
import GiftGenie.SignUp
import GiftGenie.FreshDocuments
import GiftGenie.Registrations
import GiftGenie.InvitationDelivery
import GiftGenie.SparseDocuments
import GiftGenie.ContactRows
import GiftGenie.SearchDialog
import GiftGenie.Friendship
import GiftGenie.ContactClients
import GiftGenie.ContactRuns
import GiftGenie.ContactLists
import GiftGenie.ContactPage
import GiftGenie.StateModel
import GiftGenie.RoundTrip
import GiftGenie.EmailPattern
import GiftGenie.SignUpForms
import GiftGenie.EmailValidators
import GiftGenie.SignUpPages
import GiftGenie.CalendarPage
import GiftGenie.TaskEvents
import GiftGenie.AddTaskScreen
import GiftGenie.Agenda
import GiftGenie.MonthSteps
import GiftGenie.Quiz
import GiftGenie.QuizSubmissions
import GiftGenie.QuizChoices
import GiftGenie.QuizRuns
import GiftGenie.Favorites
import GiftGenie.HeartRuns
import GiftGenie.ListPage
import GiftGenie.Session
import GiftGenie.SessionCoherence
import GiftGenie.SessionAccounts
import GiftGenie.LoginGate
import GiftGenie.LogOut
import GiftGenie.FailedSignIn
import GiftGenie.ProfileLoading
import GiftGenie.ContactFetches
import GiftGenie.ContactFreshness
import GiftGenie.ContactRest
