import MrBig.Source.Arena

/-!
# The handle stack of clientlog

clientlog/arena.c:64-124. What a function of clientlog does to the arena and to the
objects of the operating system is a list of calls; a throw cuts it short. The handles
are named after the variables that hold them.
-/

set_option autoImplicit false

namespace MrBig.Source

def arenaMaxnumHandles : Nat := 8

/-- The objects that clientlog gets from the operating system. -/
inductive Handle where
  | query
  | event
  | pagefileQuery
  | hKey
  | hPhys
  | hPipeOutputRead
  | hPipeOutputWrite
  | hProcess
  | hThread
  | table (group : Nat)
  | process
  | processToken
  | hServiceManager
  | hService
  | hLog
  | eventOf (index : Nat)
  | contextHandle
  | pmHandle
  | hStore
  | ctx
  | systemLog
  deriving DecidableEq, Repr

/-- The functions that release them. -/
inductive CloseFn where
  | pdhCloseQuery
  | closeHandle
  | regCloseKey
  | free
  | closeServiceHandle
  | evtClose
  | certCloseStore
  | certFreeCertificateContext
  | closeEventLog
  deriving DecidableEq, Repr

/-- The one function that releases an object. -/
def Handle.closeFn : Handle → CloseFn
  | .query | .pagefileQuery => .pdhCloseQuery
  | .hKey => .regCloseKey
  | .table _ => .free
  | .hServiceManager | .hService => .closeServiceHandle
  | .hLog | .eventOf _ | .contextHandle | .pmHandle => .evtClose
  | .hStore => .certCloseStore
  | .ctx => .certFreeCertificateContext
  | .systemLog => .closeEventLog
  | .event | .hPhys | .hPipeOutputRead | .hPipeOutputWrite | .hProcess | .hThread
  | .process | .processToken => .closeHandle

/-- clog_HandleWrapper. No handle is what a failed call left in the variable. -/
structure HandleWrapper where
  handle : Option Handle
  closeHandleFn : CloseFn
  deriving DecidableEq, Repr

/-- The open objects, and HandleStack with its newest wrapper first; NumHandles is its
length. -/
structure HandleState where
  openHandles : List Handle
  handleStack : List HandleWrapper
  deriving DecidableEq, Repr

inductive ClogCall where
  | arena (call : ArenaCall)
  /-- A call of the operating system that opens these. -/
  | opens (handles : List Handle)
  /-- A direct call of a function that closes. -/
  | closes (fn : CloseFn) (handle : Option Handle)
  | defer (handle : Option Handle) (fn : CloseFn)
  | ignorePopDefer
  | popDefer
  | popDeferAll

abbrev append (printed : Text) : ClogCall := .arena (.append printed)

abbrev allocate (size align count : Nat) : ClogCall := .arena (.allocate size align count)

/-- The texts that calls append, one behind the other. -/
def appended (calls : List ClogCall) : Text :=
  calls.flatMap fun
    | .arena (.append printed) => printed
    | _ => []

@[simp] theorem appended_nil : appended [] = [] := rfl

@[simp] theorem appended_cons_append (printed : Text) (rest : List ClogCall) :
    appended (append printed :: rest) = printed ++ appended rest := rfl

@[simp] theorem appended_cons_opens (handles : List Handle) (rest : List ClogCall) :
    appended (.opens handles :: rest) = appended rest := rfl

@[simp] theorem appended_cons_closes (fn : CloseFn) (handle : Option Handle)
    (rest : List ClogCall) : appended (.closes fn handle :: rest) = appended rest := rfl

@[simp] theorem appended_append (first second : List ClogCall) :
    appended (first ++ second) = appended first ++ appended second := by
  simp [appended]

/-- What a call of `fn` leaves open. -/
def closeWith (openHandles : List Handle) (w : HandleWrapper) : List Handle :=
  match w.handle with
  | none => openHandles
  | some h => if h.closeFn = w.closeHandleFn then openHandles.erase h else openHandles

/-- What a call does to the handles where it neither throws nor faults. -/
def HandleState.act (s : HandleState) : ClogCall → HandleState
  | .arena _ => s
  | .opens handles => { s with openHandles := handles ++ s.openHandles }
  | .closes fn handle => { s with openHandles := closeWith s.openHandles ⟨handle, fn⟩ }
  | .defer handle fn => { s with handleStack := ⟨handle, fn⟩ :: s.handleStack }
  | .ignorePopDefer => { s with handleStack := s.handleStack.tail }
  | .popDefer =>
    match s.handleStack with
    | [] => s
    | w :: rest => ⟨closeWith s.openHandles w, rest⟩
  | .popDeferAll => ⟨s.handleStack.foldl closeWith s.openHandles, []⟩

/-- A run of clientlog. `fault` is a clog_PopDefer on the empty stack. -/
structure ClogState where
  arena : ArenaRun
  handles : HandleState
  fault : Bool

def ClogState.Running (s : ClogState) : Prop := s.arena.thrown = none ∧ s.fault = false

instance (s : ClogState) : Decidable s.Running := instDecidableAnd

/-- One call, on the 64-bit build. -/
def clogStep (s : ClogState) (call : ClogCall) : ClogState :=
  if s.Running then
    match call with
    | .arena call => { s with arena := (arenaStep 64 s.arena call).1 }
    | .defer handle fn =>
      if s.handles.handleStack.length ≥ arenaMaxnumHandles then
        { s with arena := { s.arena with thrown := some 2 } }
      else { s with handles := s.handles.act (.defer handle fn) }
    | .popDefer =>
      if s.handles.handleStack = [] then { s with fault := true }
      else { s with handles := s.handles.act .popDefer }
    | call => { s with handles := s.handles.act call }
  else s

def clogRun (s : ClogState) (calls : List ClogCall) : ClogState := calls.foldl clogStep s

/-- A function that gets the arena by value. -/
def withScratch (body : List ClogCall) : List ClogCall :=
  .arena .enter :: body ++ [.arena .leave]

end MrBig.Source
