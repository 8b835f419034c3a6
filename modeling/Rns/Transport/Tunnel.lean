import Rns.Transport.Tables

/-!
# Tunnels

A tunnel remembers the paths learned over it, so that they survive a reconnection on another
interface.  Tunnels and their paths expire, and the number of paths over all tunnels is bounded.
-/

namespace Rns.Transport

structure TunnelPath where
  timestamp : ℚ
  receivedFrom : Hash16
  hops : UInt8
  expires : ℚ
  randomBlobs : List RandomBlob
  packetHash : Hash32
  deriving DecidableEq

structure TunnelEntry where
  tunnelId : Hash32
  interface : Option InterfaceId
  paths : Std.ExtTreeMap Hash16 TunnelPath
  expires : ℚ

abbrev TunnelTable := Std.ExtTreeMap Hash32 TunnelEntry

namespace TunnelTable

/-- `TUNNEL_TIMEOUT`, also that of the paths in a tunnel. -/
def tunnelTimeout : ℚ := 28800

variable (table : TunnelTable)

/-- `cull`: expired paths, then tunnels that expired or whose expiry is out of reach. -/
def cull (now : ℚ) : TunnelTable :=
  (table.map fun _ entry => { entry with
    paths := entry.paths.filter fun _ path => now ≤ path.timestamp + tunnelTimeout }).filter
      fun _ entry => ¬(entry.expires < now ∨ entry.expires > now + tunnelTimeout * 2)

def pathCount : ℕ :=
  (table.toList.map fun (_, entry) => entry.paths.size).sum

def oldestPath : Option (Hash32 × Hash16) :=
  let paths := table.toList.flatMap fun (tunnelId, entry) =>
    entry.paths.toList.map fun (destinationHash, path) => (tunnelId, destinationHash, path)
  (minBy (fun (_, _, a) (_, _, b) => a.timestamp < b.timestamp ∨
    a.timestamp = b.timestamp ∧ a.expires < b.expires) paths).map
      fun (tunnelId, destinationHash, _) => (tunnelId, destinationHash)

/-- One round of `enforce_destination_cap`. -/
def removePath (tunnelId : Hash32) (destinationHash : Hash16) (now : ℚ) : TunnelTable :=
  match table[tunnelId]? with
  | none => table
  | some entry =>
    let entry := { entry with paths := entry.paths.erase destinationHash }
    if entry.paths.isEmpty ∧ entry.expires ≤ now then table.erase tunnelId
    else table.insert tunnelId entry

/-- The loop of `enforce_destination_cap`.  Every round removes a path and there is no oldest path
once none is left, so one more round than there are paths is fuel enough. -/
def evictPaths (maxDestinationsTotal : ℕ) (now : ℚ) : ℕ → TunnelTable → TunnelTable
  | 0, table => table
  | fuel + 1, table =>
    if pathCount table ≥ maxDestinationsTotal then match oldestPath table with
      | none => table
      | some (tunnelId, destinationHash) =>
        evictPaths maxDestinationsTotal now fuel (removePath table tunnelId destinationHash now)
    else table

/-- `enforce_destination_cap`; the greatest `usize` stands for no limit. -/
def enforceDestinationCap (maxDestinationsTotal : ℕ) (now : ℚ) : TunnelTable :=
  if maxDestinationsTotal = usizeMax then table
  else evictPaths maxDestinationsTotal now (table.pathCount + 1) table

def storeTunnelPath (tunnelId : Hash32) (destinationHash : Hash16) (path : TunnelPath) (now : ℚ)
    (maxDestinationsTotal : ℕ) : TunnelTable :=
  let table := table.cull now
  let isNewDestination := match table[tunnelId]? with
    | some entry => !entry.paths.contains destinationHash
    | none => false
  let table := if isNewDestination then table.enforceDestinationCap maxDestinationsTotal now
    else table
  match table[tunnelId]? with
  | none => table
  | some entry => table.insert tunnelId { entry with
      paths := entry.paths.insert destinationHash path
      expires := now + tunnelTimeout }

end TunnelTable

end Rns.Transport
