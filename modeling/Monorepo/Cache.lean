import Monorepo.Descriptor.Source

/-!
# Caches of descriptors

A cache remembers what became of every descriptor that was asked for, failures too, until it is told
to forget. So a directory has the descriptor that it had when it was first asked for.
-/

namespace Monorepo

/-- A cache of descriptors. -/
structure Cache where
  /-- Where the descriptors come from. -/
  source : DescriptorSource
  /-- What became of those that were asked for. -/
  entries : Table Parsed

namespace Cache

/-- The cache that remembers nothing. -/
def new (source : DescriptorSource) : Cache := ⟨source, []⟩

/-- What is remembered of a directory. -/
def get? (cache : Cache) (buildpath : String) : Option Parsed := cache.entries.get? buildpath

/-- Whether anything is remembered of a directory. -/
def contains (cache : Cache) (buildpath : String) : Bool := cache.entries.has buildpath

/-- How many directories are remembered. -/
def size (cache : Cache) : Nat := cache.entries.length

/-- The descriptor of a directory as it is remembered, else as it is now on the disk. -/
def view (cache : Cache) (disk : Disk) (buildpath : String) : Parsed :=
  (cache.get? buildpath).getD (cache.source.parse disk buildpath)

/-- The descriptor of a directory, which is remembered from now on. -/
def parse (cache : Cache) (disk : Disk) (buildpath : String) : Parsed × Cache :=
  match cache.get? buildpath with
  | some parsed => (parsed, cache)
  | none =>
    let parsed := cache.source.parse disk buildpath
    (parsed, { cache with entries := cache.entries.set buildpath parsed })

/-- Forgets a directory. -/
def invalidate (cache : Cache) (buildpath : String) : Cache :=
  { cache with entries := cache.entries.erase buildpath }

/-- Forgets everything. -/
def flush (cache : Cache) : Cache := { cache with entries := [] }

end Cache

end Monorepo
