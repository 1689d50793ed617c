/-
# `AdvVcom.Daemon.Connect` — how `vc_connect` gets its socket

`vc_connect` tries every address of the device over every interface of the host,
starts the connections without waiting (`_create_sklist`), and then waits for the
first of them that comes up.  It works on descriptors: what it opens it has to
close, except for the one it returns.

The function is a process over the system calls it makes (`SockSig`); its only
variable is the wait list.  `kernel` is the other side: a table of the sockets
opened, which connection attempts move on by themselves (`drift`), and which
answers a call may get.  A number that is not in use is all that `socket` owes its
caller, so a number may come back after a `close`.

Three paths return something else than a usable socket:

    the last address fails in bind     its closed descriptor is still in sk, and is returned
    a connect succeeds at once, and    vc_connect returns before the socket is set back to
    none was left waiting              blocking and given TCP_NODELAY
    there is no interface              sk was never written

`Usable` is what is asked of the result, `Spared` that none of the three happened.
-/
import AdvVcom.Lib.Proc

namespace AdvVcom

open Lib

/-! ## System calls -/

def AF_UNSPEC : Nat := 0
def AF_INET : Nat := 2

/-- `struct sockaddr`. -/
structure SockAddr where
  family : Nat
  host : String
  deriving DecidableEq, Repr

/-- `struct ifaddrs`: one interface of the host. -/
structure Ifaddr where
  addr : Option SockAddr
  deriving DecidableEq, Repr

/-- `struct addrinfo`: one address of the device. -/
structure AddrInfo where
  family : Nat
  socktype : Nat
  protocol : Nat
  addr : SockAddr
  deriving DecidableEq, Repr

/-- What `connect` returns: 0, or -1 with `errno` set to `EINPROGRESS` or to
something else. -/
inductive ConnRet where
  | zero | inProgress | error
  deriving DecidableEq, Repr

inductive SockReq where
  | getifaddrs
  | getaddrinfo (addr port : String)
  | socket (family socktype protocol : Nat)
  | bind (sk : Int) (addr : Option SockAddr) (len : Nat)
  | getfl (sk : Int)
  | setfl (sk : Int) (nonblock : Bool)
  | connect (sk : Int) (addr : SockAddr)
  /-- For writing, until the time left of `CONN_TO` is over. -/
  | select (fds : List Int)
  /-- `getsockopt` for `SO_ERROR`. -/
  | sockError (sk : Int)
  | close (sk : Int)
  /-- `setsockopt` for `TCP_NODELAY`. -/
  | nodelay (sk : Int)

/-- A call that fails and has nothing to tell answers `none`, or `false`. -/
@[reducible] def SockReq.Rep : SockReq → Type
  | .getifaddrs => Option (List Ifaddr)
  | .getaddrinfo _ _ => Option (List AddrInfo)
  | .socket _ _ _ => Int
  | .bind _ _ _ => Bool
  | .getfl _ => Option Bool
  | .setfl _ _ => Bool
  | .connect _ _ => ConnRet
  | .select _ => Option (List Int)
  | .sockError _ => Option Int
  | .close _ => Unit
  | .nodelay _ => Unit

/-- The only fault is a wait loop that still runs when it should have ended. -/
@[reducible] def SockSig : Sig := ⟨SockReq, SockReq.Rep, Unit⟩

/-- Code whose variable is the list `clients`. -/
abbrev Dial (α : Type) := Act SockSig (List Int) α

def sys (e : SockReq) : Dial e.Rep := Act.request (S := SockSig) e

/-! ## `vcom.h` -/

/-- The options of `vc_config_sock` that do something. -/
inductive SkOpt where
  | block | nonblock
  deriving DecidableEq, Repr

/-- `__vc_sock_enblock`; of the flags only `O_NONBLOCK` is kept here. -/
def vcSockEnblock (sk : Int) (enable : Bool) : Dial Int := do
  match ← sys (.getfl sk) with
  | none => pure (-1)
  | some _ => do
      let ok ← sys (.setfl sk (!enable))
      pure (if ok then 0 else -1)

def vcConfigSock (sk : Int) (option : SkOpt) : Dial Int :=
  vcSockEnblock sk (option == .block)

/-! ## `vc_client_netdown.c` -/

/-- `_sock_err`: the socket's error could not be read, or there is one. -/
def sockErr (sk : Int) : Dial Bool := do
  match ← sys (.sockError sk) with
  | none => pure true
  | some arg => pure (arg != 0)

/-- The loop of `_create_sklist` over the addresses; `sk` is what the variable
holds when the loop comes to the next one. -/
def tryAddrs (ifa : Ifaddr) (family : Nat) : List AddrInfo → Int → Dial Int
  | [], sk => pure sk
  | ptr :: rest, sk =>
      if ptr.family ≠ family then tryAddrs ifa family rest sk
      else do
        let sk ← sys (.socket ptr.family ptr.socktype ptr.protocol)
        if sk < 0 then tryAddrs ifa family rest sk
        else do
          let bound ← sys (.bind sk ifa.addr (if family = AF_INET then 16 else 28))
          if !bound then do
            sys (.close sk)
            -- `sk` is not reset on this path
            tryAddrs ifa family rest sk
          else do
            let _ ← vcConfigSock sk .nonblock
            match ← sys (.connect sk ptr.addr) with
            | .error => do
                sys (.close sk)
                tryAddrs ifa family rest (-1)
            | .zero => pure sk
            | .inProgress => do
                Act.modify (· ++ [sk])
                tryAddrs ifa family rest (-1)

/-- `_create_sklist`. -/
def createSklist (addr port : String) (ifa : Ifaddr) : Dial Int := do
  let family := (ifa.addr.map SockAddr.family).getD AF_UNSPEC
  match ← sys (.getaddrinfo addr port) with
  | none => pure (-1)
  | some result => tryAddrs ifa family result (-1)

/-- One interface: the address, and if that gives nothing the redundant one.  Once
`addr` is the redundant address it stays that. -/
def tryIfaddr (ipRed : Option String) (service : String) (ifa : Ifaddr) (addr : String) :
    Dial (String × Int) := do
  let sk ← createSklist addr service ifa
  if sk < 0 then
    match ipRed with
    | some red => do
        let sk ← createSklist red service ifa
        pure (red, sk)
    | none => pure (addr, sk)
  else pure (addr, sk)

/-- The loop of `vc_connect` over the interfaces. -/
def tryIfaddrs (ipRed : Option String) (service : String) :
    List Ifaddr → String → Int → Dial Int
  | [], _, sk => pure sk
  | ifa :: rest, addr, _ => do
      let (addr, sk) ← tryIfaddr ipRed service ifa addr
      if sk ≥ 0 then pure sk else tryIfaddrs ipRed service rest addr sk

/-- The inner loop of the wait: `clients` are those not looked at yet, `ready` is
what `select` left in `rfds`. -/
def pickClient (ready : List Int) : List Int → Int → Dial Int
  | [], sk => pure sk
  | c :: clients, sk =>
      if c ∉ ready then pickClient ready clients sk
      else do
        if ← sockErr c then
          sys (.close c)
          Act.modify (List.erase · c)
          pickClient ready clients sk
        else do
          Act.modify (List.erase · c)
          pure c

/-- The `do … while (1)` loop that waits for a connection to come up. -/
def waitClients : Nat → Int → Dial Int
  | 0, _ => Act.die ()
  | fuel + 1, sk =>
      if sk ≥ 0 then pure sk
      else do
        let clients ← Act.get
        match ← sys (.select clients) with
        | none => pure sk
        | some ready => do
            let sk ← pickClient ready clients sk
            waitClients fuel sk

def closeClients : List Int → Dial Unit
  | [] => pure ()
  | c :: clients => do
      sys (.close c)
      Act.modify (List.erase · c)
      closeClients clients

/-- `VC_PROTO_PORT`, printed. -/
def VC_PROTO_PORT : String := "5202"

/-- The end of `vc_connect`, when the wait list is gone. -/
def configConnected (sk : Int) : Dial Int :=
  if sk ≥ 0 then do
    let _ ← vcConfigSock sk .block
    sys (.nodelay sk)
    pure sk
  else pure sk

/-- `vc_connect` from `list_empty(&clients)` on.  A round of the wait that does not
end it takes a client off the list, and a round that finds the connection is
followed by one that sees it. -/
def awaitConnected (sk : Int) : Dial Int := do
  let clients ← Act.get
  if clients = [] then pure sk
  else do
    let sk ← waitClients (clients.length + 2) sk
    closeClients (← Act.get)
    configConnected sk

/-- `vc_connect`; `sk` is what the variable of that name happens to hold before it
is written. -/
def vcConnect (ip : String) (ipRed : Option String) (sk : Int) : Dial Int := do
  match ← sys .getifaddrs with
  | none => pure (-1)
  | some ifaddr => do
      let sk ← tryIfaddrs ipRed VC_PROTO_PORT ifaddr ip sk
      awaitConnected sk

/-! ## The kernel -/

/-- How far the connection of a socket has come. -/
inductive Link where
  | idle | inProgress | up | failed
  deriving DecidableEq, Repr

structure Sock where
  fd : Int
  link : Link
  nonblock : Bool
  nodelay : Bool
  deriving DecidableEq, Repr

/-- What became of an attempt to connect to one address. -/
inductive Attempt where
  | noSocket | unbound | refused | waiting | connected
  deriving DecidableEq, Repr

/-- What the call has done so far: the sockets it opened and that are still open,
those it closed, the numbers it gave to `close` that were none of the former, and
its attempts, the last one at the end. -/
structure Kernel where
  ifaddr : Option (List Ifaddr)
  opened : List Sock
  closed : List Sock
  stray : List Int
  tries : List Attempt
  deriving DecidableEq, Repr

namespace Kernel

/-- The state in which the call begins. -/
def start (ifaddr : Option (List Ifaddr)) : Kernel := ⟨ifaddr, [], [], [], []⟩

def fds (w : Kernel) : List Int := w.opened.map Sock.fd

def note (w : Kernel) (a : Attempt) : Kernel := { w with tries := w.tries ++ [a] }

def push (w : Kernel) (fd : Int) : Kernel :=
  { w with opened := w.opened ++ [⟨fd, .idle, false, false⟩] }

def update (w : Kernel) (fd : Int) (f : Sock → Sock) : Kernel :=
  { w with opened := w.opened.map fun s => if s.fd = fd then f s else s }

def close (w : Kernel) (fd : Int) : Kernel :=
  if fd ∈ w.fds then
    { w with
      opened := w.opened.filter fun s => s.fd ≠ fd
      closed := w.closed ++ w.opened.filter fun s => s.fd = fd }
  else { w with stray := w.stray ++ [fd] }

/-- A connection that was under way is up or has failed. -/
def settle (w : Kernel) (fd : Int) (ok : Bool) : Kernel :=
  w.update fd fun s =>
    if s.link = .inProgress then { s with link := if ok then .up else .failed } else s

end Kernel

def ConnRet.link : ConnRet → Link
  | .zero => .up
  | .inProgress => .inProgress
  | .error => .failed

def ConnRet.attempt : ConnRet → Attempt
  | .zero => .connected
  | .inProgress => .waiting
  | .error => .refused

/-- Which answers a call may get, and what it does.  `select` shows only sockets
whose connection is no longer under way, and `SO_ERROR` is 0 only if it has not
failed. -/
def Kernel.answers (w : Kernel) : (e : SockReq) → e.Rep → Kernel → Prop
  | .getifaddrs, r, w' => r = w.ifaddr ∧ w' = w
  | .getaddrinfo _ _, _, w' => w' = w
  | .socket _ _ _, r, w' =>
      (r < 0 ∧ w' = w.note .noSocket) ∨ (0 ≤ r ∧ r ∉ w.fds ∧ w' = w.push r)
  | .bind _ _ _, ok, w' => w' = if ok then w else w.note .unbound
  | .getfl sk, r, w' => r = (w.opened.find? fun s => s.fd = sk).map Sock.nonblock ∧ w' = w
  | .setfl sk nonblock, ok, w' =>
      ok = decide (sk ∈ w.fds) ∧ w' = w.update sk fun s => { s with nonblock }
  | .connect sk _, r, w' =>
      w' = (w.update sk fun s => { s with link := r.link }).note r.attempt
  | .select _, none, w' => w' = w
  | .select fds, some ready, w' =>
      w' = w ∧ ready ≠ [] ∧ ready ⊆ fds ∧ ∀ s ∈ w.opened, s.fd ∈ ready → s.link ≠ .inProgress
  | .sockError sk, r, w' => w' = w ∧ (r = some 0 → ∀ s ∈ w.opened, s.fd = sk → s.link ≠ .failed)
  | .close sk, _, w' => w' = w.close sk
  | .nodelay sk, _, w' => w' = w.update sk fun s => { s with nodelay := true }

/-- The environment of the call: while it waits for an answer, connections under way
come up or fail. -/
abbrev kernel : Env SockSig (List Int) where
  World := Kernel
  answers := Kernel.answers
  drift := fun _ w w' => ∃ fd ok, w' = w.settle fd ok

/-! ## What is asked of the call -/

/-- What `vc_connect` may return in `w`: the one socket still open, connected,
blocking and with `TCP_NODELAY`, or a negative value when none is; and whatever it
closed was open. -/
def Usable (ret : Int) (w : Kernel) : Prop :=
  w.stray = [] ∧
    ((ret < 0 ∧ w.opened = []) ∨
      (0 ≤ ret ∧ ∃ s, w.opened = [s] ∧ s.fd = ret ∧ s.link = .up ∧ s.nonblock = false ∧
        s.nodelay = true))

/-- None of the three mishaps: no interface (and `sk` not negative by chance), a last
attempt that fails in `bind`, a connection at once when none was left waiting. -/
def Spared (ifaddr : Option (List Ifaddr)) (sk : Int) (w : Kernel) : Prop :=
  (ifaddr = some [] → sk < 0) ∧ w.tries.getLast? ≠ some .unbound ∧
    (.connected ∈ w.tries → .waiting ∈ w.tries)

end AdvVcom
