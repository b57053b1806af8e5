import SocketCPlusPlus.ThreadedServer.UDPServer

/-! The loop of the datagram server: it receives, then goes through its map of connections in the
order of the keys. Every connection is ready to send at all times, and none expires. -/
namespace SocketCPlusPlus.ThreadedServer
open Foundation Packets Common

/-- The address decides before the port. -/
instance instOrdSocketPair : Ord SocketPair := lexOrd

/-- The server with its connections as the map holds them. -/
structure MappedServer where
  connections : Std.TreeMap SocketPair Connection

/-- What `select` says, and what `recvfrom` then returns. -/
inductive SelectTiming where
  | timedOut
  | error
  | ready (receiveBuf : Memory) (results : List Received)

/-- One turn of the loop, with what the stack holds under the buffer of each service. -/
structure Round where
  timing : SelectTiming
  stack : SocketPair → Memory

namespace MappedServer

def new : MappedServer where
  connections := ∅

def table (server : MappedServer) : UDPServer where
  connections key := server.connections[key]?

/-- An insertion keeps what it finds. -/
def passBufferToConnection (server : MappedServer) (senderAddr : SockAddrIn) (buffer : Memory)
    (bufferLen : Int) : MappedServer :=
  let deets : SocketPair := (senderAddr.sinAddr, senderAddr.sinPort)
  let connections := server.connections.insertIfNew deets (.new senderAddr senderAddr.sinPort)
  { connections := connections.modify deets (·.handleDataIn buffer bufferLen) }

def receiveAllDataFromEndpoint (server : MappedServer) (receiveBuf : Memory) :
    List Received → MappedServer
  | [] => server
  | .socketError :: _ => server
  | .bytes senderAddr datagram :: rest =>
    if datagram.length = 0 then server
    else
      let receiveBuf := receiveBuf.store 0 datagram
      let server := server.passBufferToConnection senderAddr receiveBuf UDPServer.bufLength
      if UDPServer.bufLength < datagram.length then
        server.receiveAllDataFromEndpoint receiveBuf rest
      else server

def receive (server : MappedServer) : SelectTiming → MappedServer
  | .timedOut | .error => server
  | .ready receiveBuf results => server.receiveAllDataFromEndpoint receiveBuf results

/-- The service of one connection. -/
def service (connection : Connection) (stack : Memory) : List Sent × Connection :=
  if connection.needsService then connection.runService stack else ([], connection)

/-- Each connection is serviced, and removed if it has expired. -/
def serviceOutgoingConnections (server : MappedServer) (stack : SocketPair → Memory) :
    List Sent × MappedServer :=
  let serviced := server.connections.map fun key connection => service connection (stack key)
  (serviced.toList.flatMap (·.2.1),
    ⟨(serviced.map fun _ result => result.2).filter fun _ connection => !connection.hasExpired⟩)

def round (server : MappedServer) (r : Round) : List Sent × MappedServer :=
  (server.receive r.timing).serviceOutgoingConnections r.stack

inductive Step : MappedServer → Round → MappedServer → Prop
  | round (server : MappedServer) (r : Round) : Step server r (server.round r).2

/-- What a turn of the loop sends. -/
def sent (t : Taken MappedServer Round) : List Sent := (t.before.round t.event).1

/-- The senders whose datagrams are passed on. -/
def passedOn : List Received → List SocketPair
  | [] => []
  | .socketError :: _ => []
  | .bytes senderAddr datagram :: rest =>
    if datagram.length = 0 then []
    else (senderAddr.sinAddr, senderAddr.sinPort) ::
      if UDPServer.bufLength < datagram.length then passedOn rest else []

/-- The senders heard from in a turn. -/
def heard (t : Taken MappedServer Round) : List SocketPair :=
  match t.event.timing with
  | .timedOut | .error => []
  | .ready _ results => passedOn results

/-- A connection is filed under the address that it answers, has had a verdict and sends nothing of
its own. -/
structure Filed (key : SocketPair) (connection : Connection) : Prop where
  address : connection.senderAddr = ⟨key.1, key.2⟩
  decided : connection.stateMachine.currentState ≠ .sendHandshake
  ready : connection.stateMachine.readyToSend
  role : connection.stateMachine.iniates = false

/-- What holds of all connections between two turns. -/
def Sound (server : MappedServer) : Prop :=
  ∀ key connection, server.connections[key]? = some connection → Filed key connection

section Entries
variable {K V : Type} [DecidableEq K] {cmp : K → K → Ordering} [Std.TransCmp cmp]
  [Std.LawfulEqCmp cmp]

theorem getElem?_upsert (t : Std.TreeMap K V cmp) (key key' : K) (v : V) (f : V → V) :
    ((t.insertIfNew key v).modify key f)[key']? =
      if key' = key then some (f ((t[key]?).getD v)) else t[key']? := by
  rw [Std.TreeMap.getElem?_modify, Std.TreeMap.getElem?_insertIfNew,
    Std.TreeMap.getElem?_insertIfNew]
  by_cases hkey : key' = key
  · have hself : cmp key key = .eq := Std.ReflCmp.compare_self
    rw [hkey, if_pos hself, if_pos rfl]
    cases hfound : t[key]? with
    | none =>
      have hnew : key ∉ t := by
        rw [Std.TreeMap.mem_iff_isSome_getElem?, hfound]
        exact Bool.false_ne_true
      rw [if_pos ⟨hself, hnew⟩]
      rfl
    | some old =>
      have hold : key ∈ t := by
        rw [Std.TreeMap.mem_iff_isSome_getElem?, hfound]
        rfl
      rw [if_neg fun h => h.2 hold]
      rfl
  · have hne : ¬ cmp key key' = .eq := fun he => hkey (Std.LawfulEqCmp.eq_of_compare he).symm
    rw [if_neg hne, if_neg fun h => hne h.1, if_neg hkey]

end Entries

section Calls
variable (server : MappedServer)

theorem passBuffer_getElem? (senderAddr : SockAddrIn) (buffer : Memory) (bufferLen : Int)
    (key : SocketPair) :
    (server.passBufferToConnection senderAddr buffer bufferLen).connections[key]? =
      if key = (senderAddr.sinAddr, senderAddr.sinPort) then
        some (((server.connections[(senderAddr.sinAddr, senderAddr.sinPort)]?).getD
          (.new senderAddr senderAddr.sinPort)).handleDataIn buffer bufferLen)
      else server.connections[key]? :=
  getElem?_upsert ..

/-- The map does what the lookup table does. -/
theorem table_passBuffer (senderAddr : SockAddrIn) (buffer : Memory) (bufferLen : Int) :
    (server.passBufferToConnection senderAddr buffer bufferLen).table =
      server.table.passBufferToConnection senderAddr buffer bufferLen := by
  refine congrArg UDPServer.mk ?_
  funext key
  rw [passBuffer_getElem?]
  by_cases hkey : key = (senderAddr.sinAddr, senderAddr.sinPort)
  · rw [if_pos hkey, hkey]
    exact (Function.update_self _ _ server.table.connections).symm
  · rw [if_neg hkey]
    exact (Function.update_of_ne hkey _ server.table.connections).symm

/-- So does the loop over what is received. -/
theorem table_receiveAll (receiveBuf : Memory) (results : List Received) :
    (server.receiveAllDataFromEndpoint receiveBuf results).table =
      server.table.receiveAllDataFromEndpoint receiveBuf results := by
  induction results generalizing server receiveBuf with
  | nil => rfl
  | cons result results ih =>
    cases result with
    | socketError => rfl
    | bytes senderAddr datagram =>
      rw [receiveAllDataFromEndpoint, UDPServer.receiveAllDataFromEndpoint]
      split
      · rfl
      · dsimp only
        split
        · rw [ih, table_passBuffer]
        · exact table_passBuffer ..

theorem passBuffer_mem (senderAddr : SockAddrIn) (buffer : Memory) (bufferLen : Int)
    (key : SocketPair) :
    key ∈ (server.passBufferToConnection senderAddr buffer bufferLen).connections ↔
      key = (senderAddr.sinAddr, senderAddr.sinPort) ∨ key ∈ server.connections := by
  rw [Std.TreeMap.mem_iff_isSome_getElem?, Std.TreeMap.mem_iff_isSome_getElem?, passBuffer_getElem?]
  split
  · next hkey => exact iff_of_true rfl (Or.inl hkey)
  · next hkey => rw [or_iff_right hkey]

theorem receiveAll_mem (receiveBuf : Memory) (results : List Received) (key : SocketPair) :
    key ∈ (server.receiveAllDataFromEndpoint receiveBuf results).connections ↔
      key ∈ passedOn results ∨ key ∈ server.connections := by
  induction results generalizing server receiveBuf with
  | nil => exact (or_iff_right List.not_mem_nil).symm
  | cons result results ih =>
    cases result with
    | socketError => exact (or_iff_right List.not_mem_nil).symm
    | bytes senderAddr datagram =>
      rw [receiveAllDataFromEndpoint, passedOn]
      split
      · exact (or_iff_right List.not_mem_nil).symm
      · dsimp only
        split
        · rw [ih, passBuffer_mem, List.mem_cons, or_assoc, or_left_comm]
        · rw [passBuffer_mem, List.mem_singleton]

end Calls

theorem Filed.service {key : SocketPair} {connection : Connection} (h : Filed key connection)
    (stack : Memory) : service connection stack =
      ([⟨⟨key.1, key.2⟩, stack.load 0 Connection.bufferSize⟩], connection) := by
  have hneeds : connection.needsService := Bool.or_true _
  rw [MappedServer.service, if_pos hneeds,
    Connection.runService_floods stack h.ready h.decided, h.address]

theorem Filed.handleDataIn {key : SocketPair} {connection : Connection}
    (h : Filed key connection ∨ connection = .new ⟨key.1, key.2⟩ key.2) (dataIn : Memory)
    (bufferLen : Int) : Filed key (connection.handleDataIn dataIn bufferLen) := by
  rcases h with h | rfl
  · have hidle := CommsStateMachine.dataReceive_idle dataIn bufferLen h.decided
    rw [Connection.handleDataIn, hidle]
    exact ⟨h.address, h.decided, h.ready, h.role⟩
  · rw [Connection.handleDataIn, CommsStateMachine.dataReceive_verdict _ _ rfl]
    refine ⟨rfl, CommsStateMachine.verdict_ne_sendHandshake _ _ _, ?_, ?_⟩
    · rw [CommsStateMachine.verdict]
      split <;> rfl
    · rw [CommsStateMachine.verdict]
      split <;> rfl

namespace Sound
variable {server : MappedServer}

theorem passBuffer (h : server.Sound) (senderAddr : SockAddrIn) (buffer : Memory)
    (bufferLen : Int) : (server.passBufferToConnection senderAddr buffer bufferLen).Sound := by
  intro key connection hfound
  rw [passBuffer_getElem?] at hfound
  split at hfound
  · next hkey =>
    rw [← Option.some.inj hfound, hkey]
    apply Filed.handleDataIn
    cases hold : server.connections[(senderAddr.sinAddr, senderAddr.sinPort)]? with
    | none => exact Or.inr rfl
    | some old => exact Or.inl (h _ _ hold)
  · exact h key connection hfound

theorem receiveAll (h : server.Sound) (receiveBuf : Memory) (results : List Received) :
    (server.receiveAllDataFromEndpoint receiveBuf results).Sound := by
  induction results generalizing server receiveBuf with
  | nil => exact h
  | cons result results ih =>
    cases result with
    | socketError => exact h
    | bytes senderAddr datagram =>
      rw [receiveAllDataFromEndpoint]
      split
      · exact h
      · dsimp only
        split
        · exact ih (h.passBuffer senderAddr _ _) _
        · exact h.passBuffer senderAddr _ _

theorem receive (h : server.Sound) (timing : SelectTiming) : (server.receive timing).Sound := by
  cases timing with
  | timedOut => exact h
  | error => exact h
  | ready receiveBuf results => exact h.receiveAll receiveBuf results

/-- A pass of services sends one buffer of the stack to every sender, in the order of the keys, and
leaves the map as it was. -/
theorem serviceOutgoing (h : server.Sound) (stack : SocketPair → Memory) :
    (server.serviceOutgoingConnections stack).1 = server.connections.keys.map
        (fun key => ⟨⟨key.1, key.2⟩, (stack key).load 0 Connection.bufferSize⟩) ∧
      (server.serviceOutgoingConnections stack).2.connections.toList =
        server.connections.toList := by
  have hfiled : ∀ entry ∈ server.connections.toList, Filed entry.1 entry.2 := fun entry hentry =>
    h entry.1 entry.2 (Std.TreeMap.mem_toList_iff_getElem?_eq_some.mp hentry)
  constructor
  · rw [serviceOutgoingConnections, Std.TreeMap.toList_map, ← Std.TreeMap.map_fst_toList_eq_keys,
      List.map_map, List.flatMap_map, List.map_eq_flatMap]
    apply List.flatMap_congr
    intro entry hentry
    rw [(hfiled entry hentry).service]
    rfl
  · rw [serviceOutgoingConnections, Std.TreeMap.toList_filter, Std.TreeMap.toList_map,
      Std.TreeMap.toList_map, List.map_map]
    have hkept : ∀ entry ∈ server.connections.toList,
        (entry.1, (MappedServer.service entry.2 (stack entry.1)).2) = entry := by
      intro entry hentry
      rw [(hfiled entry hentry).service]
    refine (List.filter_eq_self.mpr fun _ _ => rfl).trans ?_
    exact (List.map_congr_left hkept).trans (List.map_id _)

theorem new : MappedServer.new.Sound := fun key connection hfound => by
  rw [MappedServer.new, Std.TreeMap.getElem?_emptyc] at hfound
  cases hfound

theorem of_toList {server' : MappedServer} (h : server.Sound)
    (hlist : server'.connections.toList = server.connections.toList) : server'.Sound := by
  intro key connection hfound
  rw [← Std.TreeMap.mem_toList_iff_getElem?_eq_some, hlist,
    Std.TreeMap.mem_toList_iff_getElem?_eq_some] at hfound
  exact h key connection hfound

theorem round (h : server.Sound) (r : Round) :
    (server.round r).2.Sound ∧
      (server.round r).2.connections.keys = (server.receive r.timing).connections.keys := by
  have hreceived := h.receive r.timing
  have hlist := (hreceived.serviceOutgoing r.stack).2
  refine ⟨hreceived.of_toList hlist, ?_⟩
  rw [← Std.TreeMap.map_fst_toList_eq_keys, ← Std.TreeMap.map_fst_toList_eq_keys]
  exact congrArg (List.map Prod.fst) hlist

theorem round_table (h : server.Sound) (r : Round) :
    (server.round r).2.table = (server.receive r.timing).table := by
  have hlist := ((h.receive r.timing).serviceOutgoing r.stack).2
  refine congrArg UDPServer.mk (funext fun key => Option.ext fun connection => ?_)
  rw [← Std.TreeMap.mem_toList_iff_getElem?_eq_some, ← Std.TreeMap.mem_toList_iff_getElem?_eq_some]
  exact Iff.of_eq (congrArg _ hlist)

theorem of_run {taken : List (Taken MappedServer Round)}
    (h : History Step MappedServer.new taken server) : server.Sound := by
  apply h.invariant Sound Sound.new
  intro server r server' hsound hs
  cases hs
  exact (hsound.round r).1

end Sound

/-- A turn adds the senders heard from in it. -/
theorem receive_keys (server : MappedServer) (r : Round) (server' : MappedServer)
    (key : SocketPair) : key ∈ (server.receive r.timing).connections.keys ↔
      key ∈ heard ⟨server, r, server'⟩ ∨ key ∈ server.connections.keys := by
  rw [Std.TreeMap.mem_keys, Std.TreeMap.mem_keys, heard]
  cases htiming : r.timing with
  | timedOut => exact (or_iff_right List.not_mem_nil).symm
  | error => exact (or_iff_right List.not_mem_nil).symm
  | ready receiveBuf results => exact server.receiveAll_mem receiveBuf results key

/-- The map holds every sender ever heard from, and nothing else. -/
theorem keys_of_run {server : MappedServer} {taken : List (Taken MappedServer Round)}
    (h : History Step new taken server) (key : SocketPair) :
    key ∈ server.connections.keys ↔ key ∈ taken.flatMap heard := by
  induction h with
  | start =>
    rw [Std.TreeMap.mem_keys]
    exact iff_of_false Std.TreeMap.not_mem_emptyc List.not_mem_nil
  | @step taken server server' r hrun hs ih =>
    cases hs with
    | round =>
      rw [((Sound.of_run hrun).round r).2, server.receive_keys r (server.round r).2, ih,
        List.flatMap_append, List.flatMap_singleton, List.mem_append, or_comm]

/-- In every turn of every run each sender heard from so far gets one datagram, in the order of
their addresses: a thousand and twenty-four bytes of the server's stack, whatever the sender's
machine has made of what it sent. -/
theorem every_sender_served {server : MappedServer} {taken : List (Taken MappedServer Round)}
    (h : History Step new taken server) (r : Round) :
    let t : Taken MappedServer Round := ⟨server, r, (server.round r).2⟩
    sent t = t.after.connections.keys.map
        (fun key => ⟨⟨key.1, key.2⟩, (r.stack key).load 0 Connection.bufferSize⟩) ∧
      (∀ key, key ∈ t.after.connections.keys ↔ key ∈ (taken ++ [t]).flatMap heard) ∧
      t.after.connections.keys.Pairwise (compare · · = .lt) := by
  intro t
  have hsound := Sound.of_run h
  refine ⟨?_, keys_of_run (h.step (.round server r)), Std.TreeMap.ordered_keys⟩
  rw [sent, MappedServer.round, ((hsound.receive r.timing).serviceOutgoing r.stack).1,
    (hsound.round r).2]

/-- Two senders are heard from, the one with the higher port first. -/
theorem sample_sender_served :
    let stack := fun _ _ => (7 : UInt8)
    let r : Round := ⟨.ready (fun _ => 0) [.bytes ⟨1, 9⟩ [0xAA]], stack⟩
    let r' : Round := ⟨.ready (fun _ => 0) [.bytes ⟨1, 5⟩ [0xAA]], stack⟩
    let server := (new.round r).2
    let taken : List (Taken MappedServer Round) := [⟨new, r, server⟩]
    let t : Taken MappedServer Round := ⟨server, r', (server.round r').2⟩
    sent t = t.after.connections.keys.map
        (fun key => ⟨⟨key.1, key.2⟩, (r'.stack key).load 0 Connection.bufferSize⟩) ∧
      (∀ key, key ∈ t.after.connections.keys ↔ key ∈ (taken ++ [t]).flatMap heard) ∧
      t.after.connections.keys.Pairwise (compare · · = .lt) :=
  every_sender_served (.step .start (.round _ _)) _

end MappedServer
end SocketCPlusPlus.ThreadedServer
