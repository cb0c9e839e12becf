import Hmix.Chain.Events
import Hmix.Chain.Kept
import Hmix.Chain.Library
import Hmix.Chain.Rpc
import Hmix.Chain.Subscription
import Hmix.Chain.Typed
import Hmix.Compiler.Gathering
import Hmix.Compiler.Imports
import Hmix.Compiler.Latest
import Hmix.Compiler.Loads
import Hmix.Compiler.Modes
import Hmix.Compiler.ParseError
import Hmix.Compiler.Ready
import Hmix.Compiler.Replies
import Hmix.Compiler.Rounds
import Hmix.Compiler.Settled
import Hmix.Files.CloseAll
import Hmix.Files.Closing
import Hmix.Files.Cut
import Hmix.Files.FileTab
import Hmix.Files.Undoing
import Hmix.Files.Windows
import Hmix.Home.Drags
import Hmix.Home.Persisted
import Hmix.Home.Terminal
import Hmix.Tabs.Accounts
import Hmix.Tabs.AutoCompile
import Hmix.Tabs.Balances
import Hmix.Tabs.Busy
import Hmix.Tabs.Calls
import Hmix.Tabs.Contracts
import Hmix.Tabs.Errors
import Hmix.Tabs.Selected
