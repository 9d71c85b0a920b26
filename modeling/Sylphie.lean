import Sylphie.Database.Schema
import Sylphie.Database.TableName
import Sylphie.Database.InitKvs
import Sylphie.Database.Pass
import Sylphie.Database.Invariant
import Sylphie.Database.Runs
import Sylphie.Database.Store
import Sylphie.Database.StoreSound
import Sylphie.Database.StoreCoherence
import Sylphie.Database.StoreProgress
import Sylphie.Utils.Disambiguate
import Sylphie.Utils.DisambiguatePrefix
