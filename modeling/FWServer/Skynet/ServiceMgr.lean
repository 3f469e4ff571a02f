import FWServer.Kernel.Machine
import Mathlib.Data.Nat.Notation
import Mathlib.Logic.Function.Basic

/-!
# The managers of unique services

`service/service_mgr.lua`: a service on every node that launches other services, each of them once, and tells
their handles.  The manager of one node, which is standalone, launches the global services; the other managers
call it.

A request is handled by a coroutine, which is known by its number; a string is the list of its bytes.  The
arguments of a service, which are passed on to it, and the commands `REPORT` and `LIST` are left out.
-/

namespace Skynet

namespace ServiceMgr

abbrev Name : Type := List UInt8

/-- `"@"` -/
def sign : UInt8 := 64

/-- `"snaxd"` -/
def snaxd : Name := [115, 110, 97, 120, 100]

/-- `service_name.."."..subname` -/
def join (service_name subname : Name) : Name :=
  service_name ++ [46] ++ subname

/-- The function that `waitfor` is given, with its arguments. -/
inductive Func where
  | newservice (realname : Name) (subname : Option Name)
  | rawnewservice (subname : Name)
  | call (launch : Bool) (global_name : Name) (subname : Option Name)

/-- The commands. -/
inductive Command where
  | LAUNCH
  | QUERY
  | GLAUNCH
  | GQUERY
  deriving DecidableEq

/-- A command that launches. -/
def Command.launches : Command → Bool
  | .LAUNCH => true
  | .GLAUNCH => true
  | _ => false

/-- What `waitfor` is called with: the name in the table, and the function, if any. -/
structure Target where
  name : Name
  func : Option Func

/-- `read_name` -/
def read_name (service_name : Name) : Name :=
  if service_name.head? = some sign then service_name.tail else service_name

/-- `cmd.LAUNCH`; nothing if it raises. -/
def LAUNCH (service_name : Name) (subname : Option Name) : Option Target :=
  let realname := read_name service_name
  if realname = snaxd then
    subname.map fun subname => ⟨join service_name subname, some (.rawnewservice subname)⟩
  else some ⟨service_name, some (.newservice realname subname)⟩

/-- `cmd.QUERY` -/
def QUERY (service_name : Name) (subname : Option Name) : Option Target :=
  let realname := read_name service_name
  if realname = snaxd then subname.map fun subname => ⟨join service_name subname, none⟩
  else some ⟨service_name, none⟩

/-- `waitfor_remote` -/
def waitfor_remote (launch : Bool) (name : Name) (subname : Option Name) : Option Target :=
  let global_name := sign :: name
  if name = snaxd then
    subname.map fun sub => ⟨join global_name sub, some (.call launch global_name subname)⟩
  else some ⟨global_name, some (.call launch global_name subname)⟩

/-- The commands of a manager, by `register_global` or `register_local`. -/
def cmd (standalone : Bool) (name : Name) (subname : Option Name) : Command → Option Target
  | .LAUNCH => LAUNCH name subname
  | .QUERY => QUERY name subname
  | .GLAUNCH => if standalone then LAUNCH (sign :: name) subname else waitfor_remote true name subname
  | .GQUERY => if standalone then QUERY (sign :: name) subname else waitfor_remote false name subname

/-- How a request is answered: by a handle, by an error that is raised at a line, or by neither. -/
inductive Answer where
  | handle (h : ℕ)
  | error (line : ℕ) (e : Name)
  | assertion
  | concat
  | nil
  deriving DecidableEq

/-- Where a coroutine is: on its way to the standalone manager as a call of another one, in a list of `service`,
in the call of a function that launches, in a call of the standalone manager, or at its end. -/
inductive Task where
  | asked
  | waiting
  | launching
  | calling
  | answered (a : Answer)
  deriving DecidableEq

/-- The value of `service` at a name: a table has the coroutine that has set `launch`, and the list. -/
inductive Entry where
  | nil
  | table (launch : Option ℕ) (cos : List ℕ)
  | number (h : ℕ)
  | string (e : Name)
  deriving DecidableEq

section

variable {ν : Type} [DecidableEq ν]

/-- A coroutine that handles a request at a node; `caller` is the one of another manager that has called. -/
structure Coroutine (ν : Type) where
  node : ν
  command : Command
  name : Name
  subname : Option Name
  caller : Option ℕ
  task : Task

/-- The managers of all nodes.  `launched` are the services that have been launched, by node and name. -/
structure State (ν : Type) where
  service : ν → Name → Entry
  next : ℕ
  coroutine : ℕ → Option (Coroutine ν)
  launched : List (ν × Name)

/-- What a coroutine calls `waitfor` with, where the node `g` is standalone. -/
def Coroutine.target (g : ν) (c : Coroutine ν) : Option Target :=
  cmd (decide (c.node = g)) c.name c.subname c.command

/-- A new coroutine. -/
def State.add (st : State ν) (c : Coroutine ν) : State ν :=
  { st with next := st.next + 1, coroutine := Function.update st.coroutine st.next (some c) }

/-- `service[name] = entry` -/
def State.set (st : State ν) (n : ν) (name : Name) (entry : Entry) : State ν :=
  { st with service := Function.update st.service n (Function.update (st.service n) name entry) }

/-- Some coroutines go on. -/
def State.goOn (st : State ν) (f : ℕ → Option Task) : State ν :=
  { st with coroutine := fun r => (st.coroutine r).map fun c => { c with task := (f r).getD c.task } }

/-- One coroutine goes on. -/
def State.become (st : State ν) (r : ℕ) (t : Task) : State ν :=
  st.goOn fun r' => if r' = r then some t else none

/-- `request`, up to the call of the function. -/
def request (g : ν) (st : State ν) (r : ℕ) (n : ν) (name : Name) : Func → State ν
  | .newservice _ _ | .rawnewservice _ =>
      { st.become r .launching with launched := st.launched ++ [(n, name)] }
  | .call launch global_name subname =>
      (st.become r .calling).add
        ⟨g, if launch then .LAUNCH else .QUERY, global_name, subname, some r, .asked⟩

/-- `waitfor`, once there is a table. -/
def enter (g : ν) (st : State ν) (r : ℕ) (n : ν) (target : Target) (launch : Option ℕ) (cos : List ℕ) :
    State ν :=
  match launch, target.func with
  | none, some func => request g (st.set n target.name (.table (some r) cos)) r n target.name func
  | _, _ => (st.set n target.name (.table launch (cos ++ [r]))).become r .waiting

/-- `waitfor` -/
def waitfor (g : ν) (st : State ν) (r : ℕ) (n : ν) (target : Target) : State ν :=
  match st.service n target.name with
  | .number h => st.become r (.answered (.handle h))
  | .string e => st.become r (.answered (.error 40 e))
  | .nil => enter g st r n target none []
  | .table launch cos => enter g st r n target launch cos

/-- A manager gets a request. -/
def receive (g : ν) (st : State ν) (r : ℕ) (c : Coroutine ν) : State ν :=
  match c.target g with
  | none => st.become r (.answered .concat)
  | some target => waitfor g st r c.node target

/-- What the coroutine of `request` answers, once the entry is there. -/
def Entry.result : Entry → Answer
  | .number h => .handle h
  | .string e => .error 25 e
  | _ => .nil

/-- What the coroutines that wait answer. -/
def Entry.found : Entry → Answer
  | .number h => .handle h
  | .string e => .error 54 e
  | _ => .assertion

/-- `request`, when the function has returned or raised, and the coroutines that it wakes. -/
def finish (g : ν) (st : State ν) (r : ℕ) (c : Coroutine ν) (entry : Entry) : State ν :=
  match c.target g with
  | none => st
  | some target =>
      match st.service c.node target.name with
      | .table _ cos =>
          (st.set c.node target.name entry).goOn fun r' =>
            if r' = r then some (.answered entry.result)
            else if r' ∈ cos then some (.answered entry.found) else none
      | _ => st.become r (.answered .assertion)

/-- What happens: a manager gets a request, or a call of another manager; a launch ends; a call is answered. -/
inductive Event (ν : Type) where
  | request (n : ν) (command : Command) (name : Name) (subname : Option Name)
  | arrive (r : ℕ)
  | launched (r : ℕ) (result : Except Name ℕ)
  | reply (r : ℕ)

/-- A step, where the node `g` is standalone. -/
def step (g : ν) (st : State ν) : Event ν → Option (State ν)
  | .request n command name subname =>
      let c : Coroutine ν := ⟨n, command, name, subname, none, .asked⟩
      some (receive g (st.add c) st.next c)
  | .arrive r =>
      (st.coroutine r).bind fun c => if c.task = .asked then some (receive g st r c) else none
  | .launched r result =>
      (st.coroutine r).bind fun c =>
        if c.task = .launching then
          some (finish g st r c (match result with
            | .ok h => .number h
            | .error e => .string e))
        else none
  | .reply q =>
      (st.coroutine q).bind fun d =>
        match d.task, d.caller with
        | .answered a, some r =>
            (st.coroutine r).bind fun c =>
              if c.task = .calling then
                some (finish g st r c (match a with
                  | .handle h => .number h
                  | _ => .nil))
              else none
        | _, _ => none

/-- The managers, at the start. -/
def machine (g : ν) : Machine (State ν) (Event ν) where
  init st := (∀ n name, st.service n name = .nil) ∧ st.next = 0 ∧ (∀ r, st.coroutine r = none) ∧
    st.launched = []
  step := step g

end

end ServiceMgr

end Skynet
