import Devent.Event.Release

/-! The callers of the writes: the client's request in docks_connect.c, four writes in a row,
and the read callbacks of transfer.c, which force what one leg has read out on the other. -/
namespace Devent.Docks
open Docket

/-- What happens in the writes of `docks_send_remote_address`. -/
structure AddressWrites where
  header : FlushActs
  hostLen : FlushActs
  host : FlushActs
  port : FlushActs

/-- `host_len[0]` as the size of a write. -/
def hostSize (remoteHost : CString) : Nat := sizeT (signedChar (UInt8.ofNat remoteHost.strlen))

/-- `docks_send_remote_address`; `none` also where the size reaches beyond the host. -/
def docksSendRemoteAddress (docket : Docket) (remoteHost : CString) (writes : AddressWrites) (id : Nat) :
    Option Docket := do
  let docket ← docket.write 4 writes.header id
  let docket ← docket.write 1 writes.hostLen id
  if hostSize remoteHost ≤ remoteHost.strlen + 1 then
    let docket ← docket.write (hostSize remoteHost) writes.host id
    let docket ← docket.write 2 writes.port id
    return (docket.touch .use id).modify id fun event => { event with readCb := true }
  else none

/-- The in-buffer of a leg is taken. -/
def emptied (docket : Docket) (own : Nat) : Docket :=
  (docket.touch .use own).modify own fun event => { event with inBuffer := 0 }

/-- The read callbacks of the relay; the chunks are those that `own` has read. -/
def relayRead (docket : Docket) (own other : Nat) (buffer : List Chunk) (script : FlushActs) : Option Docket :=
  if (buffer.map Subtype.val).sum = (docket.event own).inBuffer then
    (emptied docket own).writeBufferForce buffer script other
  else none

def docketServerRead (docket : Docket) (server remote : Nat) (buffer : List Chunk) (script : FlushActs) :
    Option Docket := relayRead docket server remote buffer script

def docketRemoteRead (docket : Docket) (remote server : Nat) (buffer : List Chunk) (script : FlushActs) :
    Option Docket := relayRead docket remote server buffer script

variable {docket middle after : Docket} {id : Nat}

def writeAll (id : Nat) (writes : List (Nat × FlushActs)) (docket : Docket) : Option Docket :=
  writes.foldlM (fun docket write => docket.write write.1 write.2 id) docket

/-- Each write leaves the event allocated, from the state that it finds. -/
def WritesLeave (id : Nat) : List (Nat × FlushActs) → Docket → Prop
  | [], _ => True
  | (len, script) :: rest, docket => docket.WriteLeaves len script id ∧
      ∀ after, docket.write len script id = some after → WritesLeave id rest after

def AddressWrites.list (writes : AddressWrites) (remoteHost : CString) : List (Nat × FlushActs) :=
  [(4, writes.header), (1, writes.hostLen), (hostSize remoteHost, writes.host), (2, writes.port)]

theorem docksSendRemoteAddress_eq {remoteHost : CString} {writes : AddressWrites}
    (sent : docksSendRemoteAddress docket remoteHost writes id = some after) :
    ∃ middle, writeAll id (writes.list remoteHost) docket = some middle ∧
      after = (middle.touch .use id).modify id fun event => { event with readCb := true } := by
  simp only [docksSendRemoteAddress, Option.bind_eq_bind, Option.bind_eq_some_iff] at sent
  obtain ⟨first, header, second, hostLen, sent⟩ := sent
  split at sent
  · obtain ⟨third, host, last, port, same⟩ := by
      simpa only [Option.bind_eq_some_iff] using sent
    refine ⟨last, ?_, (Option.some.inj same).symm⟩
    simp [writeAll, AddressWrites.list, header, hostLen, host, port]
  · cases sent

theorem write_evolves {len : Nat} {script : FlushActs} (sound : docket.Sound)
    (written : docket.write len script id = some after) : Evolves (docket.touch .use id) after := by
  have appended := append_evolves sound (chunksOf len) id
  simp only [write] at written
  split at written
  · exact appended.trans (writeData_evolves appended.sound written)
  · cases written
    exact appended

theorem writeAll_evolves {writes : List (Nat × FlushActs)} (sound : docket.Sound)
    (written : writeAll id writes docket = some after) : Evolves docket after := by
  induction writes generalizing docket with
  | nil =>
    cases written
    exact .refl sound
  | cons write rest ih =>
    rw [writeAll, List.foldlM_cons] at written
    obtain ⟨middle, first, later⟩ := Option.bind_eq_some_iff.mp written
    have one := (touch_evolves sound .use (by decide) id).trans (write_evolves sound first)
    exact one.trans (ih one.sound later)

/-- A write to a released event uses it. -/
theorem unreleased_live {len : Nat} {script : FlushActs} (sound : docket.Sound)
    (written : docket.write len script id = some middle) (clean : Unreleased docket middle) :
    docket.live id = true := by
  have touched := touch_evolves sound .use (by decide) id
  have both := (unreleased_trans_iff touched (write_evolves sound written)).mp clean
  exact unreleased_touch_iff.mp both.1

/-- Writes in a row use no released event and leave their own exactly if each leaves it. -/
theorem writeAll_iff {writes : List (Nat × FlushActs)} (tabled : docket.Tabled) (known : id < docket.next)
    (live : docket.live id = true) (written : writeAll id writes docket = some after) :
    Unreleased docket after ∧ after.live id = true ↔ WritesLeave id writes docket := by
  induction writes generalizing docket with
  | nil =>
    cases written
    exact iff_of_true ⟨(aboutOnly_refl id _).unreleased, live⟩ trivial
  | cons write rest ih =>
    obtain ⟨len, script⟩ := write
    rw [writeAll, List.foldlM_cons] at written
    obtain ⟨middle, first, later⟩ := Option.bind_eq_some_iff.mp written
    obtain ⟨tabled', evolves, clean, lives⟩ := write_spec tabled known live first
    have onward := writeAll_evolves tabled'.sound later
    have rest' : (∀ after, docket.write len script id = some after → WritesLeave id rest after) ↔
        WritesLeave id rest middle := by
      rw [first]
      simp
    rw [unreleased_trans_iff evolves onward, WritesLeave, rest', ← lives]
    by_cases still : middle.live id = true
    · rw [← ih tabled' (Nat.lt_of_lt_of_le known evolves.next) still later, clean]
      have leaves : docket.WriteLeaves len script id := lives.mp still
      have cleared := leaves.clean
      exact ⟨fun ⟨⟨_, uses⟩, alive⟩ => ⟨still, uses, alive⟩, fun ⟨_, uses, alive⟩ => ⟨⟨cleared, uses⟩, alive⟩⟩
    · refine iff_of_false ?_ fun both => still both.1
      rintro ⟨⟨-, uses⟩, alive⟩
      cases rest with
      | nil =>
        cases later
        exact still alive
      | cons next rest =>
        rw [List.foldlM_cons] at later
        obtain ⟨third, second, later⟩ := Option.bind_eq_some_iff.mp later
        have two := (touch_evolves tabled'.sound .use (by decide) id).trans (write_evolves tabled'.sound second)
        have both := (unreleased_trans_iff two (writeAll_evolves two.sound later)).mp uses
        exact still (unreleased_live tabled'.sound second both.1)

/-- Each of the four writes leaves the event allocated. -/
def AddressSafe (docket : Docket) (remoteHost : CString) (writes : AddressWrites) (id : Nat) : Prop :=
  WritesLeave id (writes.list remoteHost) docket

theorem docksSendRemoteAddress_iff {remoteHost : CString} {writes : AddressWrites} (tabled : docket.Tabled)
    (known : id < docket.next) (live : docket.live id = true)
    (sent : docksSendRemoteAddress docket remoteHost writes id = some after) :
    Unreleased docket after ↔ AddressSafe docket remoteHost writes id := by
  obtain ⟨middle, written, rfl⟩ := docksSendRemoteAddress_eq sent
  have evolves := writeAll_evolves tabled.sound written
  have touched := touch_evolves evolves.sound .use (by decide) id
  have set := modify_evolves (f := fun event => { event with readCb := true }) touched.sound (fun _ => rfl) id
  rw [AddressSafe, ← writeAll_iff tabled known live written, unreleased_trans_iff evolves (touched.trans set),
    unreleased_trans_iff touched set, unreleased_touch_iff]
  exact and_congr_right fun _ => and_iff_left (aboutOnly_modify id _ id _).unreleased

theorem event_emptied (docket : Docket) (own id : Nat) : (emptied docket own).event id =
    if id = own then { docket.event own with inBuffer := 0 } else docket.event id := by
  rw [Docket.event, emptied, heap_modify]
  split <;> rfl

/-- A leg is forced out alike whether or not the other, or the same, leg has been read. -/
theorem emptied_forceSafe_iff (docket : Docket) (own id : Nat) (buffer : List Chunk) (script : FlushActs) :
    (emptied docket own).ForceSafe buffer script id ↔ docket.ForceSafe buffer script id := by
  have lives : (emptied docket own).live id = docket.live id :=
    live_modify (f := fun event => { event with inBuffer := 0 }) (fun _ => rfl) (docket.touch .use own) own id
  have fds : ((emptied docket own).heap id).fd = (docket.heap id).fd := fd_modify (docket.touch .use own) own _ id
  have queue : ((emptied docket own).event id).outBuffer = (docket.event id).outBuffer := by
    rw [event_emptied]
    split
    · rename_i same
      rw [same]
    · rfl
  have writeCb : ((emptied docket own).event id).writeCb = (docket.event id).writeCb := by
    rw [event_emptied]
    split
    · rename_i same
      rw [same]
    · rfl
  have table : (emptied docket own).findEvent (docket.heap id).fd = docket.findEvent (docket.heap id).fd := rfl
  rw [ForceSafe, ForceSafe, Registered, Registered, WriteKeeps, WriteKeeps, fails, fails, lives, fds, queue, writeCb,
    table]

theorem relayRead_iff {own : Nat} {buffer : List Chunk} {script : FlushActs} (tabled : docket.Tabled)
    (known : id < docket.next) (live : docket.live id = true) (ownLive : docket.live own = true)
    (read : relayRead docket own id buffer script = some after) :
    Unreleased docket after ∧ (emptied docket own).RestoresRegistered buffer script id ↔
      docket.ForceSafe buffer script id := by
  rw [relayRead] at read
  split at read
  · obtain ⟨tabled', touched, unreleased⟩ := used tabled ownLive
    have alike := modify_alike (f := fun event => { event with inBuffer := 0 }) tabled' (fun _ => rfl)
      (fun _ => rfl) (fun _ => rfl) own
    have lives : (emptied docket own).live id = true := by
      rw [← live]
      exact live_modify (f := fun event => { event with inBuffer := 0 }) (fun _ => rfl) (docket.touch .use own) own id
    have evolves := writeBufferForce_evolves alike.tabled.sound read
    rw [unreleased (alike.evolves.trans evolves), alike.unreleased_iff evolves,
      ← emptied_forceSafe_iff docket own]
    exact writeBufferForce_iff alike.tabled known lives read
  · cases read

/-- The writes, and the callers that go on behind them, use no released event exactly if no
write that they go on behind releases it. -/
theorem writes_unreleased_iff (docket : Docket) (id : Nat) (tabled : docket.Tabled) (known : id < docket.next)
    (live : docket.live id = true) :
    (∀ len script after, docket.write len script id = some after →
      (Unreleased docket after ↔ docket.WriteClean (chunksOf len) script id)) ∧
    (∀ buffer script after, docket.writeBuffer buffer script id = some after →
      (Unreleased docket after ↔ docket.WriteClean buffer script id)) ∧
    (∀ buffer script after, docket.writeBufferForce buffer script id = some after →
      (Unreleased docket after ∧ docket.RestoresRegistered buffer script id ↔
        docket.ForceSafe buffer script id)) ∧
    (∀ remoteHost writes after, docksSendRemoteAddress docket remoteHost writes id = some after →
      (Unreleased docket after ↔ AddressSafe docket remoteHost writes id)) ∧
    ∀ own buffer script after, docket.live own = true →
      (docketServerRead docket own id buffer script = some after ∨
        docketRemoteRead docket own id buffer script = some after) →
      (Unreleased docket after ∧ (emptied docket own).RestoresRegistered buffer script id ↔
        docket.ForceSafe buffer script id) := by
  refine ⟨fun len script after written => ?_, fun buffer script after written => ?_,
    fun buffer script after written => ?_, fun remoteHost writes after sent => ?_,
    fun own buffer script after ownLive read => ?_⟩
  · exact (write_spec tabled known live written).2.2.1
  · exact writeBuffer_unreleased_iff tabled known live written
  · exact writeBufferForce_iff tabled known live written
  · exact docksSendRemoteAddress_iff tabled known live sent
  · obtain read | read := read
    · exact relayRead_iff tabled known live ownLive read
    · exact relayRead_iff tabled known live ownLive read

/-- A send that fails. -/
def refusedFlush : FlushActs := ⟨[⟨-1, false⟩], [], []⟩

/-- A send that fails frees the registered event, and the bits go into the freed memory. -/
theorem forced_after_failure : ¬∀ (docket : Docket) (id : Nat), docket.Tabled → id < docket.next →
    docket.live id = true → ∀ buffer script after, docket.writeBufferForce buffer script id = some after →
    Unreleased docket after ∧ docket.RestoresRegistered buffer script id := by
  intro claim
  have created : opened.performAll [.create 5 reader] = some _ := rfl
  have tabled := (performAll_acted opened_tabled created).tabled
  have clean := (claim _ 0 tabled (by decide) rfl [⟨1, by decide⟩] refusedFlush _ rfl).1
  have used := clean ⟨.use, 0, false⟩ (by decide)
  cases used

theorem forced_whole : ∃ docket after, opened.performAll [.create 5 reader] = some docket ∧
    docket.writeBufferForce [⟨1, by decide⟩] ⟨[⟨1, false⟩], [], []⟩ 0 = some after ∧
    Unreleased docket after ∧ docket.RestoresRegistered [⟨1, by decide⟩] ⟨[⟨1, false⟩], [], []⟩ 0 := by
  have created : opened.performAll [.create 5 reader] = some _ := rfl
  have tabled := (performAll_acted opened_tabled created).tabled
  have forces := (writes_unreleased_iff _ 0 tabled (by decide) rfl).2.2.1
  exact ⟨_, _, rfl, rfl, (forces _ _ _ rfl).mpr ⟨⟨rfl, rfl⟩, rfl, nofun⟩⟩

end Devent.Docks
