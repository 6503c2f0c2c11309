import Vmill.Program.AddressSpace
import Vmill.Snapshot

/-!
# Loading a snapshot (`Workspace.cpp`)

A file is what the calls of `read` on it return, one after the other. `none`: a `CHECK` fails, or
the behaviour is undefined.
-/

namespace Vmill

namespace AddressSpace

/-- `AddressSpace::ToReadWriteVirtualAddress`: the range that is found, and the pointer as an index
into its bytes. -/
def toReadWriteVirtualAddress (s : AddressSpace) (h : Heap) (addr_ : Nat) :
    Option (AddressSpace × Heap × MemoryMapPtr × Option Nat) :=
  let addr := addr_ &&& s.addrMask
  let (s, range) := s.findRange h addr
  match h.toReadWriteVirtualAddress range addr with
  | none => none
  | some (h, index) => some (s, h, range, index)

end AddressSpace

/-- The loop of `LoadPageRangeFromFile`. At the end of the file the loop goes on forever, and after
a failed `read`, such as one to a null pointer, it is left by a `CHECK` that fails. -/
def loadPageRangeLoop (s : AddressSpace) (h : Heap) (baseAddr rangeSize : Nat) :
    List (List UInt8) → Option (AddressSpace × Heap)
  | [] => if rangeSize = 0 then some (s, h) else none
  | chunk :: reads =>
    if rangeSize = 0 then some (s, h)
    else
      match s.toReadWriteVirtualAddress h baseAddr with
      | some (s, h, range, some index) =>
        let buff := chunk.take rangeSize
        -- the bytes of the range end in front of what is read
        if sub64 (h.obj range).limitAddress (h.obj range).baseAddress < index + buff.length then
          none
        else
          loadPageRangeLoop s (h.storeBytes range index buff)
            (wrap64 (baseAddr + buff.length)) (rangeSize - buff.length) reads
      | _ => none

def loadPageRangeFromFile (files : List UInt8 → Option (List (List UInt8))) (s : AddressSpace)
    (h : Heap) (range : PageRange) : Option (AddressSpace × Heap) :=
  match files range.name with
  -- `CHECK(remill::FileExists(path))`
  | none => none
  | some reads =>
    let rangeSize := sub64 range.limit range.base
    -- `CHECK(range_size <= remill::FileSize(path))`
    if reads.flatten.length < rangeSize then none
    else loadPageRangeLoop s h range.base rangeSize reads

/-- The name that the range of a kind gets. -/
def mapPath (page : PageRange) : Option (List UInt8) :=
  match page.kind with
  | .linuxStackPageRange => some kStackText
  | .linuxHeapPageRange => some kHeapText
  | .linuxVVarPageRange => some kVVarText
  | .linuxVDSOPageRange => some kVDSOText
  | .linuxVSysCallPageRange => some kVSysCallText
  | .fileBackedPageRange => page.filePath
  | .anonymousPageRange => none
  | .anonymousZeroRange => none

/-- The signed number that a word of the snapshot is. -/
def toInt64 (word : Nat) : Int := (BitVec.ofNat 64 word).toInt

def loadPageRange (files : List UInt8 → Option (List (List UInt8))) (s : AddressSpace) (h : Heap)
    (page : PageRange) : Option (AddressSpace × Heap) :=
  -- `CHECK(page.limit() > page.base())`
  if toInt64 page.limit ≤ toInt64 page.base then none
  else
    let size := sub64 page.limit page.base
    match s.addMap h page.base size (mapPath page) (page.fileOffset.getD 0) with
    | none => none
    | some (s, h) =>
      match if page.kind = .anonymousZeroRange then some (s, h)
          else loadPageRangeFromFile files s h page with
      | none => none
      | some (s, h) =>
        some (s.setPermissions h page.base size page.canRead page.canWrite page.canExec, h)

def loadPageRanges (files : List UInt8 → Option (List (List UInt8))) (s : AddressSpace) (h : Heap) :
    List PageRange → Option (AddressSpace × Heap)
  | [] => some (s, h)
  | page :: pages =>
    match loadPageRange files s h page with
    | none => none
    | some (s, h) => loadPageRanges files s h pages

structure SnapshotAddressSpace where
  id : Nat
  parentId : Option Nat
  pageRanges : List PageRange

/-- `LoadAddressSpaceFromSnapshot`: what becomes of the address spaces that have been loaded. -/
def loadAddressSpaceFromSnapshot (cfg : Config) (files : List UInt8 → Option (List (List UInt8)))
    (addrSpaceIds : Nat → Option AddressSpace) (h : Heap) (orig : SnapshotAddressSpace) :
    Option ((Nat → Option AddressSpace) × Heap) :=
  -- `CHECK(!addr_space_ids.count(id))`
  if (addrSpaceIds orig.id).isSome then none
  else
    let made : Option (AddressSpace × Heap) :=
      match orig.parentId with
      | none => some (AddressSpace.new cfg h)
      -- `CHECK(addr_space_ids.count(parent_id))`
      | some parentId => (addrSpaceIds parentId).map (·.clone h)
    match made with
    | none => none
    | some (s, h) =>
      (loadPageRanges files s h orig.pageRanges).map fun (s, h) =>
        (Function.update addrSpaceIds orig.id (some s), h)

end Vmill
