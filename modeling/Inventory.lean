import Inventory.Properties.Export
import Inventory.Properties.Audit
import Inventory.Properties.Queue
import Inventory.Properties.LostUpdate
import Inventory.Properties.SqlText
import Inventory.Properties.RecentLog
import Inventory.Properties.Access
import Inventory.Properties.Undo
import Inventory.Properties.Complete
import Inventory.Properties.Writers
import Inventory.Properties.Batch
import Inventory.Properties.Logins
import Inventory.Properties.Filters
import Inventory.Properties.FilterValues
import Inventory.Properties.Selection
import Inventory.Properties.Injection
import Inventory.Properties.Linearizable
import Inventory.Properties.Guests
import Inventory.Properties.Bulk
import Inventory.Properties.Authors
import Inventory.Properties.NewEntry
import Inventory.Properties.Forms
import Inventory.Properties.FormsBack
import Inventory.Properties.History
