import Sylar.Lib.Threads
import Sylar.LogPattern
import Sylar.LoggerFormat
import Sylar.Uri

/-!
# Loggers, appenders and threads

`LoggerManager`, `Logger`, the appenders and the items' `format` in
`log.cc`, the macro `SYLAR_LOG_LEVEL` in `log.h`. The methods are programs
of threads; each takes the locks that the source takes, in its order. A
logger and an appender are the numbers of their `new`. The constructor
of `LoggerManager` makes logger 0, which it calls `root`, and appender 0.

`setLevel`, `getLevel` and `getFormatter` take no lock; here each is one
step. No constructor sets the level of an appender: it has what the memory
held before.
-/

namespace Sylar

inductive LogLevel where
  | unknow
  | debug
  | info
  | warn
  | error
  | fatal
deriving Repr, DecidableEq

namespace LogLevel

def value : LogLevel → Nat
  | .unknow => 0
  | .debug => 1
  | .info => 2
  | .warn => 3
  | .error => 4
  | .fatal => 5

def toString : LogLevel → Bytes
  | .unknow => bytes "UNKEOW"
  | .debug => bytes "DEBUG"
  | .info => bytes "INFO"
  | .warn => bytes "WARN"
  | .error => bytes "ERROR"
  | .fatal => bytes "FATAL"

end LogLevel

/-- `logger` is the number of `m_logger`. -/
structure LogEvent where
  file : Bytes
  line : Int
  elapse : Nat
  threadId : Nat
  fiberId : Nat
  time : Nat
  content : Bytes
  logger : Nat
  level : LogLevel
deriving Repr, DecidableEq

/-- What `format` writes for a logger with the given name. `strftime` is
what `localtime_r` and `strftime` leave in `buf`. -/
def FormatItem.format (strftime : Bytes → Nat → Bytes) (name : Bytes) (level : LogLevel)
    (event : LogEvent) : FormatItem → Bytes
  | .message => event.content
  | .level => level.toString
  | .elapse => decimal event.elapse
  | .name => name
  | .threadId => decimal event.threadId
  | .newLine => [10]
  | .dateTime fmt => strftime fmt event.time
  | .filename => event.file
  | .line => Uri.toDecimal event.line
  | .tab => [9]
  | .fiberId => decimal event.fiberId
  | .string str => str

def LogFormatter.format (f : LogFormatter) (strftime : Bytes → Nat → Bytes) (name : Bytes)
    (level : LogLevel) (event : LogEvent) : Bytes :=
  f.items.flatMap (FormatItem.format strftime name level event)

/-- Where an appender writes. -/
inductive LogTarget where
  | stdout
  /-- a file, with whether `m_filestream` is open -/
  | file (filename : Bytes) (opened : Bool)
deriving Repr, DecidableEq

/-- A successful `open` clears the error that `close` leaves in a stream that
is closed. -/
def LogTarget.reopen (opens : Bool) : LogTarget → LogTarget
  | .stdout => .stdout
  | .file filename _ => .file filename opens

namespace Logs

structure Appender extends LogAppender LogFormatter where
  level : Int
  target : LogTarget

structure Logger where
  name : Bytes
  level : LogLevel
  formatter : Option LogFormatter
  appenders : List Nat
  root : Option Nat

end Logs

/-- The loggers and appenders that there are, and `m_loggers`. -/
structure Logs where
  loggers : Nat
  logger : Nat → Logs.Logger
  appenders : Nat
  appender : Nat → Logs.Appender
  managed : List (Bytes × Nat)

inductive LogMutex where
  | manager
  | logger (l : Nat)
  | appender (a : Nat)
deriving Repr, DecidableEq

inductive LogOutput where
  /-- a text in `std::cout` -/
  | cout (text : Bytes)
  /-- a text in the file of an appender -/
  | file (a : Nat) (text : Bytes)
  /-- the file has been opened, and is empty -/
  | opened (a : Nat)
  /-- what `getLogger` has returned -/
  | gotLogger (name : Bytes) (l : Nat)
deriving Repr, DecidableEq

abbrev LogProg : Type := Prog LogMutex Logs LogOutput

namespace Logs

def putLogger (s : Logs) (l : Nat) (x : Logger) : Logs :=
  { s with logger := Function.update s.logger l x }

def putAppender (s : Logs) (a : Nat) (x : Appender) : Logs :=
  { s with appender := Function.update s.appender a x }

/-- The constructor of `Logger`. -/
def Logger.new (name : Bytes) : Logger :=
  ⟨name, .debug, some (.new (bytes "%d [%p] %t %N %F %f %l %m %n")), [], none⟩

/-- A new logger. -/
def newLogger (s : Logs) (x : Logger) : Logs :=
  { s.putLogger s.loggers x with loggers := s.loggers + 1 }

/-- A new appender, where the memory held `memory`. -/
def newAppender (s : Logs) (target : LogTarget) (memory : Int) : Logs :=
  { s.putAppender s.appenders ⟨.new, memory, target⟩ with appenders := s.appenders + 1 }

/-! ## The methods -/

/-- `LogAppender::setFormatter`. -/
def LogAppender.setFormatter (a : Nat) (val : Option LogFormatter) (k : LogProg) : LogProg :=
  .lock (.appender a) <|
    .act (fun s => some (s.putAppender a { s.appender a with
      toLogAppender := (s.appender a).toLogAppender.setFormatter val })) <|
    .unlock (.appender a) k

/-- `LogAppender::setLevel`. -/
def LogAppender.setLevel (a : Nat) (val : LogLevel) (k : LogProg) : LogProg :=
  .act (fun s => some (s.putAppender a { s.appender a with level := val.value })) k

/-- What `log` of an appender writes. Without a format it calls a method of
nothing; a stream that is not open takes nothing. -/
def write (strftime : Bytes → Nat → Bytes) (a l : Nat) (level : LogLevel) (event : LogEvent)
    (s : Logs) : Option (List LogOutput) :=
  if (s.appender a).level ≤ level.value then
    (s.appender a).formatter.map fun f =>
      match (s.appender a).target with
      | .stdout => [.cout (f.format strftime (s.logger l).name level event)]
      | .file _ true => [.file a (f.format strftime (s.logger l).name level event)]
      | .file _ false => []
  else some []

/-- `log` of `StdoutLogAppender` and `FileLogAppender`. -/
def LogAppender.log (strftime : Bytes → Nat → Bytes) (a l : Nat) (level : LogLevel)
    (event : LogEvent) (k : LogProg) : LogProg :=
  .lock (.appender a) <| .emit (write strftime a l level event) <| .unlock (.appender a) k

/-- `FileLogAppender::reopen`. `opens` is whether `open` can open the file. -/
def FileLogAppender.reopen (a : Nat) (opens : Bool) (k : LogProg) : LogProg :=
  .lock (.appender a) <|
    .act (fun s => some (s.putAppender a { s.appender a with
      target := (s.appender a).target.reopen opens })) <|
    .emit (fun _ => some (if opens then [.opened a] else [])) <| .unlock (.appender a) k

/-- `Logger::log`, where at most `fuel` loggers are behind each other.
Behind the last of them its behaviour is undefined. -/
def Logger.log (strftime : Bytes → Nat → Bytes) : Nat → Nat → LogLevel → LogEvent → LogProg →
    LogProg
  | 0, _, _, _, k => .emit (fun _ => none) k
  | fuel + 1, l, level, event, k =>
      .read fun s =>
        if (s.logger l).level.value ≤ level.value then
          .lock (.logger l) <| .read fun s =>
            match (s.logger l).appenders, (s.logger l).root with
            | [], some r => Logger.log strftime fuel r level event (.unlock (.logger l) k)
            | [], none => .unlock (.logger l) k
            | as, _ => as.foldr (fun a k => LogAppender.log strftime a l level event k)
                (.unlock (.logger l) k)
        else k

/-- `Logger::addAppender`. -/
def Logger.addAppender (l a : Nat) (k : LogProg) : LogProg :=
  .lock (.logger l) <| .read fun s =>
    let push := .act (fun s => some (s.putLogger l { s.logger l with
      appenders := (s.logger l).appenders ++ [a] })) <| .unlock (.logger l) k
    if (s.appender a).formatter.isNone then LogAppender.setFormatter a (s.logger l).formatter push
    else push

/-- `Logger::delAppender`. -/
def Logger.delAppender (l a : Nat) (k : LogProg) : LogProg :=
  .lock (.logger l) <|
    .act (fun s => some (s.putLogger l { s.logger l with
      appenders := (s.logger l).appenders.erase a })) <|
    .unlock (.logger l) k

/-- `Logger::clearAppender`. -/
def Logger.clearAppender (l : Nat) (k : LogProg) : LogProg :=
  .lock (.logger l) <|
    .act (fun s => some (s.putLogger l { s.logger l with appenders := [] })) <|
    .unlock (.logger l) k

/-- `Logger::setLevel`. -/
def Logger.setLevel (l : Nat) (val : LogLevel) (k : LogProg) : LogProg :=
  .act (fun s => some (s.putLogger l { s.logger l with level := val })) k

/-- The body of the loop in `Logger::setFormatter`. -/
def Logger.inherit (l a : Nat) (k : LogProg) : LogProg :=
  .lock (.appender a) <|
    .act (fun s => some (
      if !(s.appender a).hasFormatter then
        s.putAppender a { s.appender a with formatter := (s.logger l).formatter }
      else s)) <|
    .unlock (.appender a) k

/-- `Logger::setFormatter`. -/
def Logger.setFormatter (l : Nat) (val : Option LogFormatter) (k : LogProg) : LogProg :=
  .lock (.logger l) <|
    .act (fun s => some (s.putLogger l { s.logger l with formatter := val })) <|
    .read fun s =>
      (s.logger l).appenders.foldr (fun a k => Logger.inherit l a k) (.unlock (.logger l) k)

/-- `Logger::setFormatter` with a pattern. -/
def Logger.setPattern (l : Nat) (val : Bytes) (k : LogProg) : LogProg :=
  let new : LogFormatter := .new val
  if new.isError then k else Logger.setFormatter l (some new) k

/-- `LoggerManager::getLogger`. -/
def LoggerManager.getLogger (name : Bytes) (k : LogProg) : LogProg :=
  .lock .manager <| .read fun s =>
    match s.managed.lookup name with
    | some l => .emit (fun _ => some [.gotLogger name l]) <| .unlock .manager k
    | none =>
        .act (fun s => some { s.newLogger { Logger.new name with root := some 0 } with
          managed := (name, s.loggers) :: s.managed }) <|
        .emit (fun s => (s.managed.lookup name).map fun l => [.gotLogger name l]) <|
        .unlock .manager k

/-! ## Calls -/

inductive Call where
  | newLogger (name : Bytes)
  | newStdoutLogAppender (memory : Int)
  | newFileLogAppender (filename : Bytes) (memory : Int)
  | getLogger (name : Bytes)
  | log (l : Nat) (level : LogLevel) (event : LogEvent)
  | debug (l : Nat) (event : LogEvent)
  | info (l : Nat) (event : LogEvent)
  | warn (l : Nat) (event : LogEvent)
  | error (l : Nat) (event : LogEvent)
  | fatal (l : Nat) (event : LogEvent)
  /-- `SYLAR_LOG_LEVEL` -/
  | logLevel (l : Nat) (level : LogLevel) (event : LogEvent)
  | addAppender (l a : Nat)
  | delAppender (l a : Nat)
  | clearAppender (l : Nat)
  | setLevel (l : Nat) (val : LogLevel)
  | setFormatter (l : Nat) (val : Option LogFormatter)
  | setPattern (l : Nat) (val : Bytes)
  | setAppenderLevel (a : Nat) (val : LogLevel)
  | setAppenderFormatter (a : Nat) (val : Option LogFormatter)
  | reopen (a : Nat) (opens : Bool)
deriving Repr, DecidableEq

def given (p : Prop) [Decidable p] (prog : LogProg) : Option LogProg :=
  if p then some prog else none

/-- The program of a call, `none` where there is no such logger or no such
appender. No logger is behind the root: two are enough. -/
def code (strftime : Bytes → Nat → Bytes) (s : Logs) : Call → Option LogProg
  | .newLogger name => some (.act (fun s => some (s.newLogger (.new name))) .done)
  | .newStdoutLogAppender memory =>
      some (.act (fun s => some (s.newAppender .stdout memory)) .done)
  | .newFileLogAppender filename memory =>
      some (.act (fun s => some (s.newAppender (.file filename false) memory)) .done)
  | .getLogger name => some (LoggerManager.getLogger name .done)
  | .log l level event => given (l < s.loggers) (Logger.log strftime 2 l level event .done)
  | .debug l event => given (l < s.loggers) (Logger.log strftime 2 l .debug event .done)
  | .info l event => given (l < s.loggers) (Logger.log strftime 2 l .info event .done)
  | .warn l event => given (l < s.loggers) (Logger.log strftime 2 l .warn event .done)
  | .error l event => given (l < s.loggers) (Logger.log strftime 2 l .debug event .done)
  | .fatal l event => given (l < s.loggers) (Logger.log strftime 2 l .fatal event .done)
  | .logLevel l level event => given (l < s.loggers) <| .read fun s =>
      if (s.logger l).level.value ≤ level.value then
        let event := { event with logger := l, level := level, elapse := 0 }
        Logger.log strftime 2 event.logger event.level event .done
      else .done
  | .addAppender l a => given (l < s.loggers ∧ a < s.appenders) (Logger.addAppender l a .done)
  | .delAppender l a => given (l < s.loggers) (Logger.delAppender l a .done)
  | .clearAppender l => given (l < s.loggers) (Logger.clearAppender l .done)
  | .setLevel l val => given (l < s.loggers) (Logger.setLevel l val .done)
  | .setFormatter l val => given (l < s.loggers) (Logger.setFormatter l val .done)
  | .setPattern l val => given (l < s.loggers) (Logger.setPattern l val .done)
  | .setAppenderLevel a val => given (a < s.appenders) (LogAppender.setLevel a val .done)
  | .setAppenderFormatter a val => given (a < s.appenders) (LogAppender.setFormatter a val .done)
  | .reopen a opens => given (a < s.appenders ∧ (s.appender a).target ≠ .stdout)
      (FileLogAppender.reopen a opens .done)

/-- What the constructor of `LoggerManager` makes; `memory` is what the memory
of the appender held. -/
def start (memory : Int) : Logs :=
  let s : Logs := ⟨0, fun _ => .new [], 0, fun _ => ⟨.new, 0, .stdout⟩, []⟩
  let s := (s.newLogger (.new (bytes "root"))).newAppender .stdout memory
  let s := ((Logger.addAppender 0 0 .done).solo s).getD s
  { s with managed := [((s.logger 0).name, 0)] }

def system (strftime : Bytes → Nat → Bytes) (T : Type) [DecidableEq T] :
    System (Threads T LogMutex Logs LogOutput) (ThreadEvent T Call) :=
  Threads.system (code strftime) fun s => ∃ memory, s = start memory

end Logs

end Sylar
