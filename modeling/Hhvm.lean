import Hhvm.Util.Hash
import Hhvm.Infra.Probe
import Hhvm.Infra.Except
import Hhvm.Infra.OrderedMap
import Hhvm.Infra.Bytes
import Hhvm.Array.HashTable
import Hhvm.Array.Properties.Probing
import Hhvm.Array.Properties.HashIndex
import Hhvm.Array.Properties.Rehash
import Hhvm.Array.Properties.LiveMap
import Hhvm.Array.VanillaDict
import Hhvm.Array.Properties.DictLookup
import Hhvm.Array.Properties.DictIndex
import Hhvm.Array.Properties.Iteration
import Hhvm.Array.Properties.DictOps
import Hhvm.Array.Properties.NextKI
import Hhvm.Array.Properties.DictRefinement
import Hhvm.Array.Properties.Renumber
import Hhvm.Array.Properties.DictEquality
import Hhvm.Array.VanillaKeyset
import Hhvm.Array.Properties.KeysetIndex
import Hhvm.Array.Properties.IndexInvariant
import Hhvm.Array.Bespoke.MonotypeDict
import Hhvm.Array.Properties.MonotypeIndex
import Hhvm.Array.Properties.MonotypeRefinement
import Hhvm.Array.Properties.BespokeDict
import Hhvm.Vm.HhbcCodec
import Hhvm.Vm.Properties.Iva
import Hhvm.Vm.Properties.Immediates
import Hhvm.Vm.Properties.InstrLen
import Hhvm.Infra.SortedSearch
import Hhvm.Infra.Walk
import Hhvm.Array.Bespoke.Layout
import Hhvm.Array.Properties.LayoutHierarchy
import Hhvm.Jit.ArrayLayout
import Hhvm.Jit.Properties.ArrayLayoutLattice
import Hhvm.Infra.Utf8
import Hhvm.Zend.Html
import Hhvm.Zend.Properties.HtmlEncode
import Hhvm.Ext.Strtr
import Hhvm.Ext.Properties.StrtrFast
import Hhvm.Zend.Printf
import Hhvm.Zend.Properties.Printf
import Hhvm.Zend.Properties.PrintfConvert
import Hhvm.Zend.Properties.PrintfFormat
import Hhvm.Zend.NumericString
import Hhvm.Zend.Properties.NumericString
import Hhvm.Infra.Decimal
import Hhvm.Util.Conv10
import Hhvm.Util.Properties.IntegerString
import Hhvm.Infra.Forest
import Hhvm.Infra.Partition
import Hhvm.Util.UnionFind
import Hhvm.Util.Properties.UnionFind
import Hhvm.Infra.SwapRemove
import Hhvm.Util.Properties.SparseId
import Hhvm.Infra.Interleaving
import Hhvm.Util.LockFreeLazy
import Hhvm.Util.Properties.LockFreeLazy
import Hhvm.Util.LockFreePtrWrapper
import Hhvm.Util.Properties.LockFreePtrWrapper
import Hhvm.Ext.HashFurc
import Hhvm.Ext.Properties.HashFurc
import Hhvm.Base.MemoryManager
import Hhvm.Base.Properties.SizeIndex
import Hhvm.Array.VanillaVec
import Hhvm.Array.Properties.VanillaVecCapacity
import Hhvm.Array.PackedBlock
import Hhvm.Array.Properties.PackedBlockLayout
import Hhvm.Jit.AliasIdSet
import Hhvm.Jit.Properties.AliasIdSet
import Hhvm.Jit.Properties.AliasIdSetQuery
import Hhvm.Jit.Properties.AliasIdSetBuild
import Hhvm.Infra.Lifetime
import Hhvm.Util.CompactVector
import Hhvm.Util.Properties.CompactVector
import Hhvm.Util.Properties.CompactVectorOps
import Hhvm.Util.Properties.CompactVectorRefinement
import Hhvm.Jit.Properties.RegMoves
import Hhvm.Infra.Word64
import Hhvm.Infra.Intervals
import Hhvm.Util.RadixMap
import Hhvm.Util.Properties.RadixMapShape
import Hhvm.Util.Properties.RadixMapInsert
import Hhvm.Util.Properties.RadixMapOps
import Hhvm.Util.Properties.RadixMapIterate
import Hhvm.Util.Properties.RadixMapFind
import Hhvm.Util.Properties.RadixMapRefinement
