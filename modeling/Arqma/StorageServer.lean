import Arqma.Cryptonote
import Arqma.FileSystem
import Arqma.HttpIo

/-!
# The key-value store of the storage server

Values are kept in memory and, if a data directory is set, each in a file of its own: below
`kv`, in a directory named after the namespace. Names are percent-encoded, which leaves dots
alone and can make a name three times as long. A file that cannot be written is passed over.
-/
namespace Arqma.Storage
open Arqma.Cryptonote List

def maxTtl : UInt32 := 14 * 24 * 60 * 60

/-! ## Stored values -/

structure Stored where
  value : Bytes
  expiry : UInt64 := 0
deriving DecidableEq

def magic : Bytes := asciiBytes "ARQ1"

/-- What `persist_kv` writes. -/
def encodeStored (stored : Stored) : Bytes := magic ++ wordBytes stored.expiry ++ stored.value

/-- The number that bytes in little-endian order stand for. -/
def readLe : Bytes → ℕ
  | [] => 0
  | b :: bytes => b.toNat + 256 * readLe bytes

def readU64Le (raw : Bytes) (off : ℕ) : UInt64 := UInt64.ofNat (readLe ((raw.drop off).take 8))

/-- A file without the magic is a value without an expiry. -/
def decodeStored (raw : Bytes) : Stored :=
  if 12 ≤ raw.length ∧ raw.take 4 = magic then ⟨raw.drop 12, readU64Le raw 4⟩ else ⟨raw, 0⟩

def Stored.expired (stored : Stored) (now : UInt64) : Bool :=
  stored.expiry ≠ 0 && stored.expiry ≤ now

theorem readLe_leBytes (count n : ℕ) : readLe (leBytes count n) = n % 256 ^ count := by
  induction count generalizing n with
  | zero => simp [leBytes, readLe, Nat.mod_one]
  | succ count ih =>
    have hcons : leBytes (count + 1) n = n.toUInt8 :: leBytes count (n / 256) := by
      simp only [leBytes, range_succ_eq_map, map_cons, map_map, Nat.mul_zero,
        Nat.pow_zero, Nat.div_one]
      congr 1
      grind [Nat.div_div_eq_div_mul, map_congr_left]
    rw [hcons, readLe, ih, pow_succ', Nat.mod_mul]
    rfl

theorem readU64Le_wordBytes (w : UInt64) (before after : Bytes) (hbefore : before.length = 4) :
    readU64Le (before ++ wordBytes w ++ after) 4 = w := by
  have hdrop : ((before ++ wordBytes w ++ after).drop 4).take 8 = leBytes 8 w.toNat := by
    rw [append_assoc, ← hbefore, drop_left]
    exact take_left' (by simp [wordBytes, leBytes])
  rw [readU64Le, hdrop, readLe_leBytes]
  have hlt : w.toNat < 256 ^ 8 := w.toNat_lt
  rw [Nat.mod_eq_of_lt hlt, UInt64.ofNat_toNat]

theorem length_encodeStored (stored : Stored) :
    (encodeStored stored).length = 12 + stored.value.length := by
  have hmagic : magic.length = 4 := rfl
  simp only [encodeStored, length_append, hmagic, wordBytes, leBytes, length_map, length_range]

/-- What is written is read back. -/
theorem decodeStored_encodeStored (stored : Stored) :
    decodeStored (encodeStored stored) = stored := by
  have hlength := length_encodeStored stored
  have hmagic : (encodeStored stored).take 4 = magic := by
    rw [encodeStored, append_assoc]
    exact take_left' rfl
  have hvalue : (encodeStored stored).drop 12 = stored.value := by
    rw [encodeStored]
    exact drop_left' (by simp [wordBytes, leBytes, magic, asciiBytes])
  rw [decodeStored, if_pos ⟨by omega, hmagic⟩, hvalue, encodeStored,
    readU64Le_wordBytes stored.expiry magic stored.value rfl]

/-! ## Requests -/

abbrev Values := AList (fun _ : Name × Name => Stored)

structure StorageServer where
  /-- The location of the data directory, if one is set. -/
  dataDir : Option Location
  token : Bytes := []
  fs : FileSystem := .empty
  values : Values := ∅

inductive Method
  | put
  | get
  | other
deriving DecidableEq, Repr

/-- A request for `/v1/kv` with the part of its path after the question mark, at some time. -/
structure KvRequest where
  now : UInt64
  method : Method
  query : Bytes
  body : Bytes

inductive Response
  | noContent
  | ok (body : Bytes)
  | badRequest
  | unauthorized
  | notFound
  | insufficientStorage
deriving DecidableEq

def kvName : Name := asciiBytes "kv"

/-- The location of `data_dir/kv`. -/
def kvRoot (dir : Location) : Location := dir ++ [kvName]

/-- The expiry of a value with some `ttl` parameter, zero for none. -/
def expiryOf (now : UInt64) (ttlRaw : Bytes) : UInt64 :=
  if ttlRaw = [] then 0
  else
    let ttl := min (strtoul ttlRaw).toUInt32 maxTtl
    if ttl = 0 then 0 else now + ttl.toUInt64

namespace StorageServer

/-- `persist_kv` for a data directory. -/
def persistKv (fs : FileSystem) (dir : Location) (ns key : Name) (stored : Stored) : FileSystem :=
  let made := (fs.createDirectories (kvRoot dir ++ [urlEncode ns])).1
  (made.writeFile (kvRoot dir ++ [urlEncode ns]) (urlEncode key) (encodeStored stored)).getD made

def eraseKvFile (fs : FileSystem) (dir : Location) (ns key : Name) : FileSystem :=
  fs.removeFile (kvRoot dir ++ [urlEncode ns]) (urlEncode key)

/-- Set a value in memory and on disk. -/
def store (s : StorageServer) (ns key : Name) (stored : Stored) : StorageServer :=
  { s with
    values := s.values.insert (ns, key) stored
    fs := s.dataDir.elim s.fs fun dir => persistKv s.fs dir ns key stored }

/-- Remove an entry and its file. -/
def dropEntry (s : StorageServer) (entry : Name × Name) : StorageServer :=
  { s with
    values := s.values.erase entry
    fs := s.dataDir.elim s.fs fun dir => eraseKvFile s.fs dir entry.1 entry.2 }

/-- Every request first removes what has expired. -/
def dropExpired (s : StorageServer) (now : UInt64) : StorageServer :=
  ((s.values.entries.filter fun e => e.2.expired now).map Sigma.fst).foldl dropEntry s

def kvQuotaExceeded (s : StorageServer) (ns key : Name) : Bool :=
  (s.values.lookup (ns, key)).isNone &&
    (maxKvEntries ≤ s.values.entries.length ||
      maxKvEntriesPerNamespace ≤ s.values.entries.countP fun e => e.1.1 = ns)

def tokenOk (s : StorageServer) (r : KvRequest) : Bool :=
  s.token = [] || queryGet r.query (asciiBytes "token") = s.token

def handlePut (s : StorageServer) (r : KvRequest) (ns key : Name) : StorageServer × Response :=
  if s.kvQuotaExceeded ns key then (s, .insufficientStorage)
  else
    (s.store ns key ⟨r.body, expiryOf r.now (queryGet r.query (asciiBytes "ttl"))⟩, .noContent)

def handleGet (s : StorageServer) (r : KvRequest) (ns key : Name) : StorageServer × Response :=
  match s.values.lookup (ns, key) with
  | none => (s, .notFound)
  | some stored =>
    if stored.expired r.now then (s.dropEntry (ns, key), .notFound) else (s, .ok stored.value)

def namespaceOf (r : KvRequest) : Name := queryGet r.query (asciiBytes "ns")
def keyOf (r : KvRequest) : Name := queryGet r.query (asciiBytes "key")

def properName (name : Name) : Bool := name ≠ [] && name.length ≤ maxKvNameBytes

/-- `handle` for `/v1/kv`. -/
def handle (s : StorageServer) (r : KvRequest) : StorageServer × Response :=
  if !s.tokenOk r then (s, .unauthorized)
  else
    let current := s.dropExpired r.now
    if !(properName (namespaceOf r) && properName (keyOf r)) then (current, .badRequest)
    else
      match r.method with
      | .put => current.handlePut r (namespaceOf r) (keyOf r)
      | .get => current.handleGet r (namespaceOf r) (keyOf r)
      | .other => (current, .notFound)

def after (s : StorageServer) (requests : List KvRequest) : StorageServer :=
  requests.foldl (fun s r => (s.handle r).1) s

/-- One file of `load_disk`: a file that is too large is skipped, one that has expired is
removed. -/
def loadFile (now : UInt64) (root : Location) (space : Name) (acc : Values × FileSystem)
    (entry : Name × FsNode) : Values × FileSystem :=
  match entry.2 with
  | .directory => acc
  | .file bytes =>
    if maxHttpBodyBytes < bytes.length then acc
    else if (decodeStored bytes).expired now then
      (acc.1, acc.2.removeNode (root ++ [space, entry.1]))
    else (acc.1.insert (urlDecode space, urlDecode entry.1) (decodeStored bytes), acc.2)

def loadSpace (now : UInt64) (fs : FileSystem) (root : Location) (acc : Values × FileSystem)
    (entry : Name × FsNode) : Values × FileSystem :=
  match entry.2 with
  | .file _ => acc
  | .directory => (fs.children (root ++ [entry.1])).foldl (loadFile now root entry.1) acc

/-- `load_disk` of a new server, for the values. -/
def loadDisk (fs : FileSystem) (dir : Location) (now : UInt64) : Values × FileSystem :=
  (fs.children (kvRoot dir)).foldl (loadSpace now fs (kvRoot dir)) (∅, fs)

end StorageServer
end Arqma.Storage
