import Mathlib.Data.List.Forall2
import Mathlib.Data.List.Nodup
import QuorumList.Proofs.Delivery

/-!
Who is at an address.

A hosts file gives each process one address, and names no process twice.  It may well name one
address twice: the same text, or two spellings of one IPv6 address.  A datagram then counts for the
first process at the address it came from, whoever sent it.  So addresses identify the processes of
a file exactly if no two of its lines give one address, and a process that shares its address with
an earlier one is never heard.
-/
namespace QuorumList

namespace Net.Hosts

/-! ### What a hosts file says -/

/-- A line without a process: it is blank or a comment. -/
def saysNothing (line : List Char) : Bool :=
  line.isEmpty || line.head? = some '#'

/-- The line is about this process. -/
def Names (line : List Char) (h : Host) : Prop :=
  readFields ((splitAtEach ',' line).map trimmed) = .ok h

/-- The lines that name processes, of some lines as they are written. -/
def naming (lines : List (List Char)) : List (List Char) :=
  (lines.map trimmed).filter fun line => !saysNothing line

/-- The lines of a hosts file that name processes. -/
def namingLines (content : String) : List (List Char) :=
  naming (splitAtEach '\n' content.toList)

variable {line : List Char} {lines : List (List Char)} {entries read : List Host} {h k : Host}
  {content : String} {hosts : Hosts} {node : NodeId} {address : SocketAddress}

theorem Names.unique (one : Names line h) (two : Names line k) : h = k :=
  Except.ok.inj (one.symm.trans two)

theorem naming_cons_of_nothing (nothing : saysNothing (trimmed line) = true) :
    naming (line :: lines) = naming lines := by
  simp [naming, nothing]

theorem naming_cons_of_name (name : saysNothing (trimmed line) = false) :
    naming (line :: lines) = trimmed line :: naming lines := by
  simp [naming, name]

theorem readLine_of_nothing (nothing : saysNothing line = true) :
    readLine line entries = .ok entries := by
  rw [saysNothing] at nothing
  rw [readLine, if_pos nothing]

/-- A line that names a process is read if it is well-formed and names a new one. -/
theorem readLine_eq_ok_iff (name : saysNothing line = false) :
    readLine line entries = .ok read ↔
      ∃ h, Names line h ∧ h.node ∉ entries.map Host.node ∧ read = entries ++ [h] := by
  rw [saysNothing] at name
  rw [readLine, if_neg (by simp [name])]
  unfold Names
  cases readFields ((splitAtEach ',' line).map trimmed) with
  | error fault =>
      refine ⟨nofun, ?_⟩
      rintro ⟨h, malformed, -⟩
      exact nomatch malformed
  | ok h =>
      have known : entries.any (fun e => e.node = h.node) = true ↔
          h.node ∈ entries.map Host.node := by simp
      dsimp only [bind, Except.bind]
      by_cases named : h.node ∈ entries.map Host.node
      · rw [if_pos (known.mpr named)]
        refine ⟨nofun, ?_⟩
        rintro ⟨k, same, new, -⟩
        exact absurd (Except.ok.inj same ▸ named) new
      · rw [if_neg (mt known.mp named)]
        constructor
        · intro added
          exact ⟨h, rfl, named, (Except.ok.inj added).symm⟩
        · rintro ⟨k, same, -, rfl⟩
          rw [Except.ok.inj same]
          rfl

theorem readLines_cons_eq_ok_iff {number : Nat} :
    readLines number (line :: lines) entries = .ok read ↔
      ∃ next, readLine (trimmed line) entries = .ok next ∧
        readLines (number + 1) lines next = .ok read := by
  rw [readLines]
  cases readLine (trimmed line) entries with
  | error fault => simp
  | ok next => simp

/-- The lines of a file are read if each one that names a process is well-formed and names a new
one. -/
theorem readLines_eq_ok_iff {number : Nat} (distinct : (entries.map Host.node).Nodup) :
    readLines number lines entries = .ok read ↔
      ∃ added, List.Forall₂ Names (naming lines) added ∧
        ((entries ++ added).map Host.node).Nodup ∧ read = entries ++ added := by
  induction lines generalizing number entries with
  | nil =>
      have last : naming [] = [] := rfl
      simp [readLines, last, distinct, eq_comm]
  | cons line rest ih =>
      rw [readLines_cons_eq_ok_iff]
      cases nothing : saysNothing (trimmed line) with
      | true =>
          rw [readLine_of_nothing nothing, naming_cons_of_nothing nothing]
          simpa using ih distinct
      | false =>
          rw [naming_cons_of_name nothing]
          -- A process is new among the entries before it or it is one too many among all.
          have longer {h : Host} : (((entries ++ [h]).map Host.node).Nodup) ↔
              h.node ∉ entries.map Host.node := by
            rw [List.map_append, List.map_singleton, List.perm_append_comm.nodup_iff,
              List.singleton_append, List.nodup_cons]
            exact and_iff_left distinct
          constructor
          · rintro ⟨next, read, others⟩
            obtain ⟨h, names, new, rfl⟩ := (readLine_eq_ok_iff nothing).mp read
            obtain ⟨added, reads, all, rfl⟩ := (ih (longer.mpr new)).mp others
            exact ⟨h :: added, .cons names reads, by simpa using all, by simp⟩
          · rintro ⟨added, reads, all, whole⟩
            obtain ⟨h, more, names, others, rfl⟩ := List.forall₂_cons_left_iff.mp reads
            rw [List.append_cons] at all whole
            have start : ((entries ++ [h]).map Host.node).Nodup :=
              all.sublist ((List.sublist_append_left ..).map _)
            exact ⟨entries ++ [h],
              (readLine_eq_ok_iff nothing).mpr ⟨h, names, longer.mp start, rfl⟩,
              (ih start).mpr ⟨more, others, all, whole⟩⟩

/-- A hosts file is read if each of its lines that names a process is well-formed and no two name
the same one.  The entries are what the lines say, in the order of the processes. -/
theorem parse_eq_ok_iff :
    parse content = .ok hosts ↔
      ∃ read, List.Forall₂ Names (namingLines content) read ∧ (read.map Host.node).Nodup ∧
        hosts.entries = read.mergeSort fun h k => h.node ≤ k.node := by
  have reads (read : List Host) :
      readLines 1 (splitAtEach '\n' content.toList) [] = .ok read ↔
        ∃ added, List.Forall₂ Names (namingLines content) added ∧
          (added.map Host.node).Nodup ∧ read = added :=
    readLines_eq_ok_iff List.nodup_nil
  rw [parse]
  cases result : readLines 1 (splitAtEach '\n' content.toList) [] with
  | error e =>
      refine ⟨nofun, ?_⟩
      rintro ⟨read, said, distinct, -⟩
      exact nomatch result.symm.trans ((reads read).mpr ⟨read, said, distinct, rfl⟩)
  | ok read =>
      obtain ⟨_, said, distinct, rfl⟩ := (reads read).mp result
      constructor
      · intro same
        exact ⟨read, said, distinct, by rw [← Except.ok.inj same]⟩
      · rintro ⟨other, saidToo, distinctToo, sorted⟩
        have same := result.symm.trans ((reads other).mpr ⟨other, saidToo, distinctToo, rfl⟩)
        rw [Except.ok.inj same]
        exact congrArg Except.ok (Hosts.mk.injEq .. ▸ sorted.symm)

/-! ### Looking up -/

/-- The processes of a file that has been read are those that its lines name, and they stand in
ascending order. -/
structure Listed (content : String) (hosts : Hosts) : Prop where
  mem_iff : ∀ h, h ∈ hosts.entries ↔ ∃ line ∈ namingLines content, Names line h
  ascending : hosts.entries.Pairwise fun h k => h.node < k.node

theorem mem_iff_of_names (said : List.Forall₂ Names lines read) :
    h ∈ read ↔ ∃ line ∈ lines, Names line h := by
  have same : lines.map (fun line => readFields ((splitAtEach ',' line).map trimmed)) =
      read.map Except.ok := by
    rw [← List.forall₂_eq_eq_eq, List.forall₂_map_left_iff, List.forall₂_map_right_iff]
    exact said
  calc h ∈ read ↔ Except.ok h ∈ (read.map Except.ok : List (Except HostFault Host)) :=
        (List.mem_map_of_injective fun _ _ => Except.ok.inj).symm
    _ ↔ ∃ line ∈ lines, Names line h := by
        rw [← same, List.mem_map]
        rfl

theorem listed_of_parse (parsed : parse content = .ok hosts) : Listed content hosts := by
  obtain ⟨read, said, distinct, sorted⟩ := parse_eq_ok_iff.mp parsed
  have order := List.mergeSort_perm read fun h k => decide (h.node ≤ k.node)
  rw [← sorted] at order
  refine ⟨fun h => order.mem_iff.trans (mem_iff_of_names said), ?_⟩
  have notBefore : hosts.entries.Pairwise fun h k => h.node ≤ k.node := by
    have rising : (read.mergeSort fun h k => decide (h.node ≤ k.node)).Pairwise fun h k =>
        decide (h.node ≤ k.node) = true :=
      List.pairwise_mergeSort (by simpa using fun _ _ _ => Nat.le_trans)
        (by simpa using fun _ _ => Nat.le_total _ _) read
    rw [← sorted] at rising
    simpa using rising
  have different : hosts.entries.Pairwise fun h k => h.node ≠ k.node :=
    List.pairwise_map.mp ((order.map _).nodup_iff.mpr distinct)
  exact (notBefore.and different).imp fun both => Nat.lt_of_le_of_ne both.1 both.2

/-- The first of ascending entries with a property is the least one. -/
theorem find?_eq_some_iff {p : Host → Bool}
    (ascending : entries.Pairwise fun h k => h.node < k.node) :
    entries.find? p = some h ↔
      h ∈ entries ∧ p h = true ∧ ∀ k ∈ entries, p k = true → h.node ≤ k.node := by
  have least {h : Host} (found : entries.find? p = some h) :
      h ∈ entries ∧ p h = true ∧ ∀ k ∈ entries, p k = true → h.node ≤ k.node := by
    obtain ⟨holds, before, after, split, others⟩ := List.find?_eq_some_iff_append.mp found
    refine ⟨List.mem_of_find?_eq_some found, holds, fun k member alike => ?_⟩
    rw [split] at ascending member
    rcases List.mem_append.mp member with early | late
    · exact absurd alike (by simpa using others k early)
    · rcases List.mem_cons.mp late with rfl | behind
      · exact Nat.le_refl _
      · exact Nat.le_of_lt
          (List.rel_of_pairwise_cons (List.pairwise_append.mp ascending).2.1 behind)
  refine ⟨least, ?_⟩
  rintro ⟨member, holds, first⟩
  cases found : entries.find? p with
  | none => exact absurd holds (List.find?_eq_none.mp found h member)
  | some k =>
      obtain ⟨listed, alike, before⟩ := least found
      have same : k.node = h.node :=
        Nat.le_antisymm (before h member holds) (first k listed alike)
      have once : (entries.map Host.node).Nodup :=
        List.pairwise_map.mpr (ascending.imp fun less => Nat.ne_of_lt less)
      rw [List.inj_on_of_nodup_map once listed member same]

namespace Listed

variable (listed : Listed content hosts)
include listed

theorem address?_eq_some_iff :
    hosts.address? node = some address ↔
      ∃ h ∈ hosts.entries, h.node = node ∧ h.address = address := by
  simp only [address?, get?, Option.map_eq_some_iff, find?_eq_some_iff listed.ascending,
    decide_eq_true_eq]
  constructor
  · rintro ⟨h, ⟨member, named, -⟩, at_⟩
    exact ⟨h, member, named, at_⟩
  · rintro ⟨h, member, rfl, at_⟩
    exact ⟨h, ⟨member, rfl, fun k _ same => Nat.le_of_eq same.symm⟩, at_⟩

/-- The process at an address is the first of those that have it. -/
theorem nodeAt?_eq_some_iff :
    hosts.nodeAt? address = some node ↔
      hosts.address? node = some address ∧
        ∀ other, hosts.address? other = some address → node ≤ other := by
  simp only [nodeAt?, Option.map_eq_some_iff, find?_eq_some_iff listed.ascending,
    decide_eq_true_eq, listed.address?_eq_some_iff]
  constructor
  · rintro ⟨h, ⟨member, at_, first⟩, rfl⟩
    refine ⟨⟨h, member, rfl, at_⟩, ?_⟩
    rintro other ⟨k, inEntries, rfl, also⟩
    exact first k inEntries also
  · rintro ⟨⟨h, member, rfl, at_⟩, first⟩
    exact ⟨h, ⟨member, at_, fun k inEntries also => first k.node ⟨k, inEntries, rfl, also⟩⟩, rfl⟩

theorem exists_nodeAt? (given : hosts.address? node = some address) :
    ∃ first, hosts.nodeAt? address = some first := by
  obtain ⟨h, member, -, at_⟩ := listed.address?_eq_some_iff.mp given
  have there : (hosts.entries.find? fun e => e.address = address).isSome = true :=
    List.find?_isSome.mpr ⟨h, member, by simpa using at_⟩
  obtain ⟨k, found⟩ := Option.isSome_iff_exists.mp there
  exact ⟨k.node, by rw [nodeAt?, found, Option.map_some]⟩

/-- Addresses identify processes exactly if no two lines give one address to two of them. -/
theorem nodeAt?_address?_iff :
    (∀ node address, hosts.address? node = some address → hosts.nodeAt? address = some node) ↔
      ∀ one ∈ namingLines content, ∀ two ∈ namingLines content, ∀ h k, Names one h →
        Names two k → h.address = k.address → h.node = k.node := by
  constructor
  · intro identify one inContent two alsoInContent h k ofOne ofTwo same
    have hAt := listed.address?_eq_some_iff.mpr
      ⟨h, (listed.mem_iff h).mpr ⟨one, inContent, ofOne⟩, rfl, rfl⟩
    have kAt := listed.address?_eq_some_iff.mpr
      ⟨k, (listed.mem_iff k).mpr ⟨two, alsoInContent, ofTwo⟩, rfl, rfl⟩
    have found := identify h.node h.address hAt
    rw [same, identify k.node k.address kAt] at found
    exact (Option.some.inj found).symm
  · intro apart node address given
    refine listed.nodeAt?_eq_some_iff.mpr ⟨given, fun other also => ?_⟩
    obtain ⟨h, hIn, rfl, hAt⟩ := listed.address?_eq_some_iff.mp given
    obtain ⟨k, kIn, rfl, kAt⟩ := listed.address?_eq_some_iff.mp also
    obtain ⟨one, inContent, ofOne⟩ := (listed.mem_iff h).mp hIn
    obtain ⟨two, alsoInContent, ofTwo⟩ := (listed.mem_iff k).mp kIn
    exact Nat.le_of_eq (apart one inContent two alsoInContent h k ofOne ofTwo (hAt.trans kAt.symm))

end Listed

end Net.Hosts

/-! ### Who is heard -/

namespace Endpoint

variable {route : Link.Route} {address : Net.SocketAddress} {datagram : Text}
  {endpoint : Endpoint} {first : NodeId} {token : Nat} {payload : String} {message : Message}

/-- A message that is handed on counts if it names the process that the datagram counts for. -/
theorem node_receive_message (known : endpoint.hosts.nodeAt? address = some first)
    (data : Link.Frame.decode? datagram = some (.data token payload))
    (decoded : Message.decode (.ofString payload) = .ok message) :
    (endpoint.receive route address datagram).1.node =
      if (endpoint.hands? route first datagram).isNone then endpoint.node
      else if first = message.sender ∧ first < endpoint.node.site.cluster.size then
        (endpoint.node.count [.messageReceived]).dispatch message
      else endpoint.node.count [.decodeFailure] := by
  rw [node_receive known]
  cases handed : endpoint.hands? route first datagram with
  | none => rfl
  | some given =>
      have whole : given = (token, payload) := by
        unfold hands? at handed
        rw [data] at handed
        cases route with
        | unreachable => exact nomatch handed
        | reachable =>
            dsimp only at handed
            split at handed
            · exact (Option.some.inj handed).symm
            · exact nomatch handed
      rw [whole]
      simp only [Node.onMessage, decoded, Option.isNone_some, Bool.false_eq_true, if_false]
      by_cases own : first = message.sender ∧ first < endpoint.node.site.cluster.size
      · rw [if_pos own, if_neg (not_or.mpr ⟨not_not.mpr own.1.symm, Nat.not_le.mpr own.2⟩)]
      · rw [if_neg own, if_pos ((not_and_or.mp own).imp Ne.symm Nat.le_of_not_lt)]

end Endpoint

namespace Net.Hosts

/-- The addresses of a hosts file identify its processes exactly if no two of its lines give one
address to two processes.  Whatever the file says, a datagram from the address of a process counts
for the first process at that address, so a message of another one is not heard, even if its payload
is handed on. -/
theorem addresses_identify_iff {content : String} {hosts : Hosts}
    (parsed : parse content = .ok hosts) :
    ((∀ node address, hosts.address? node = some address →
        hosts.nodeAt? address = some node) ↔
      ∀ one ∈ namingLines content, ∀ two ∈ namingLines content, ∀ h k, Names one h →
        Names two k → h.address = k.address → h.node = k.node) ∧
    ∀ node address, hosts.address? node = some address →
      ∃ first, hosts.nodeAt? address = some first ∧ hosts.address? first = some address ∧
        (∀ other, hosts.address? other = some address → first ≤ other) ∧
        ∀ (endpoint : Endpoint) (route : Link.Route) (datagram : Text), endpoint.hosts = hosts →
          endpoint.receive route address datagram =
              (match Link.Frame.decode? datagram with
                | some frame => endpoint.handle route first frame
                | none => (endpoint, none)) ∧
            ∀ token payload message,
              Link.Frame.decode? datagram = some (.data token payload) →
              Message.decode (.ofString payload) = .ok message → message.sender = node →
              (endpoint.receive route address datagram).1.node =
                if (endpoint.hands? route first datagram).isNone then endpoint.node
                else if first = node ∧ node < endpoint.node.site.cluster.size then
                  (endpoint.node.count [.messageReceived]).dispatch message
                else endpoint.node.count [.decodeFailure] := by
  have listed := listed_of_parse parsed
  refine ⟨listed.nodeAt?_address?_iff, fun node address given => ?_⟩
  obtain ⟨first, found⟩ := listed.exists_nodeAt? given
  obtain ⟨there, least⟩ := listed.nodeAt?_eq_some_iff.mp found
  refine ⟨first, found, there, least, ?_⟩
  rintro endpoint route datagram rfl
  constructor
  · rw [Endpoint.receive, found]
    cases Link.Frame.decode? datagram <;> rfl
  · rintro token payload message data decoded rfl
    rw [Endpoint.node_receive_message found data decoded]
    congr 2
    exact propext (and_congr_right fun same => by rw [same])

/-- A file that spells one address in two ways. -/
def sharedFile : String :=
  "0,a,::1,5000\n1,b,0:0:0:0:0:0:0:1,5000"

/-- The address that the file spells. -/
def sharedAddress : SocketAddress :=
  { ip := .v6 [0, 0, 0, 0, 0, 0, 0, 1], port := 5000 }

/-- What the file says. -/
def sharedHosts : Hosts :=
  { entries :=
      [ { node := 0, name := "a", ip := sharedAddress.ip, port := sharedAddress.port },
        { node := 1, name := "b", ip := sharedAddress.ip, port := sharedAddress.port } ] }

theorem parse_sharedFile : parse sharedFile = .ok sharedHosts := by
  refine parse_eq_ok_iff.mpr ⟨sharedHosts.entries, ?_, by decide, ?_⟩
  · have lines : namingLines sharedFile =
        ["0,a,::1,5000".toList, "1,b,0:0:0:0:0:0:0:1,5000".toList] := by decide +kernel
    rw [lines]
    unfold Names
    exact .cons (by decide +kernel) (.cons (by decide +kernel) .nil)
  · exact (List.mergeSort_of_pairwise (by decide)).symm

/-- No message of process 1 is heard that comes from the address of process 1. -/
theorem second_process_unheard :
    parse sharedFile = .ok sharedHosts ∧ sharedHosts.address? 1 = some sharedAddress ∧
      ∀ (endpoint : Endpoint) (route : Link.Route) (datagram : Text) (token : Nat)
        (payload : String) (message : Message), endpoint.hosts = sharedHosts →
        Link.Frame.decode? datagram = some (.data token payload) →
        Message.decode (.ofString payload) = .ok message → message.sender = 1 →
        (endpoint.receive route sharedAddress datagram).1.node = endpoint.node ∨
          (endpoint.receive route sharedAddress datagram).1.node =
            endpoint.node.count [.decodeFailure] := by
  have ofSecond : sharedHosts.address? 1 = some sharedAddress := by decide
  have ofFirst : sharedHosts.address? 0 = some sharedAddress := by decide
  refine ⟨parse_sharedFile, ofSecond, ?_⟩
  intro endpoint route datagram token payload message hosts data decoded named
  obtain ⟨first, -, -, least, heard⟩ :=
    (addresses_identify_iff parse_sharedFile).2 1 sharedAddress ofSecond
  have zero : first = 0 := Nat.le_zero.mp (least 0 ofFirst)
  rw [(heard endpoint route datagram hosts).2 token payload message data decoded named, zero]
  cases (endpoint.hands? route 0 datagram).isNone <;> simp

/-- Both processes have the address, and only process 0 is found there. -/
theorem shared_address_misattributed :
    parse sharedFile = .ok sharedHosts ∧ sharedHosts.address? 1 = some sharedAddress ∧
      sharedHosts.nodeAt? sharedAddress = some 0 :=
  ⟨parse_sharedFile, by decide, by decide⟩

end Net.Hosts

end QuorumList
