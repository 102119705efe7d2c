import ObjcRuntime.Categories
import ObjcRuntime.ChangeIsa
import ObjcRuntime.RawIsa
import ObjcRuntime.MethodCache
import ObjcRuntime.MapTable
import ObjcRuntime.WeakTable
import ObjcRuntime.MethodLookup
import ObjcRuntime.WeakVars
import ObjcRuntime.Ivars
import ObjcRuntime.TypeEncoding
import ObjcRuntime.Associations
import ObjcRuntime.ClassWalk
import ObjcRuntime.Layouts
import ObjcRuntime.TaggedPointers
import ObjcRuntime.PropertyAttributes
import ObjcRuntime.SwiftNames
import ObjcRuntime.NamedClasses
import ObjcRuntime.HashTable
import ObjcRuntime.DuplicateClass
import ObjcRuntime.Protocols
import ObjcRuntime.IsaRaces
import ObjcRuntime.WeakRemoval
import ObjcRuntime.CategoryList
import ObjcRuntime.ProtocolMethods
import ObjcRuntime.AddMethods
import ObjcRuntime.AddIvar
import ObjcRuntime.AutoreleasePool
import ObjcRuntime.Trampolines
import ObjcRuntime.ListArrays
import ObjcRuntime.AttachCategories
import ObjcRuntime.CxxStructors
import ObjcRuntime.Sync
import ObjcRuntime.RequiredRawIsa
import ObjcRuntime.CxxFlags
import ObjcRuntime.InheritedFlags
import ObjcRuntime.MissingSuperclasses
import ObjcRuntime.FutureClasses
import ObjcRuntime.FutureNames
import ObjcRuntime.AtomicProperties
import ObjcRuntime.AtomicHistories
import ObjcRuntime.Disposal
import ObjcRuntime.SharedMetadata
import ObjcRuntime.DisposalHistories
import ObjcRuntime.LoadMethods
import ObjcRuntime.Properties
import ObjcRuntime.ExchangeSort
import ObjcRuntime.ExtendedTypes
import ObjcRuntime.SafeRanges
import ObjcRuntime.ClassCount
import ObjcRuntime.AvailablePages
import ObjcRuntime.StaleImps
import ObjcRuntime.HeaderSearch
import ObjcRuntime.Paths
import ObjcRuntime.LockOrder
import ObjcRuntime.LayoutDecoders
import ObjcRuntime.SlidLayouts
import ObjcRuntime.DroppedReferences
import ObjcRuntime.InstanceSize
import ObjcRuntime.Leb128
import ObjcRuntime.AltHandlers
import ObjcRuntime.AltHandlerOrder
import ObjcRuntime.PropertyFields
import ObjcRuntime.TypeBounds
import ObjcRuntime.GCFiles
import ObjcRuntime.SyncExclusion
import ObjcRuntime.Zalloc
import ObjcRuntime.LoadOrder
import ObjcRuntime.PendingInitialize
import ObjcRuntime.PoolReleases
import ObjcRuntime.PoolTokens
import ObjcRuntime.RefcountTable
