import VerilogIndex.Disk.Basic
import VerilogIndex.Value

/-!
# Notices

What the library has to say beside its results, each with a level and the part that says it.
-/

namespace VerilogIndex

inductive Notice where
  | unknownSetting (key : Value)
  | filelistNotFound (path : Text)
  | variableInFilelist (path : Text) (line : Nat) (entry : Text)
  | filelistsFound (count : Nat)
  | noSources (root : Text)
  | reading (count : Nat) (root : Text)
  | failedToIndex (path reason : Text)
  | scanned (count : Nat)
  | cannotRead (path : Text) (reason : Disk.Failure)
  | timedOut (path : Text) (after : Value)
  | shadows (name path before : Text)
  | resolvesTo (name path : Text)
  | removed (path : Text) (names : List Text)
  | failedToHandle (kind key : Text)
  | watching (root : Text)
  | stoppedWatching (root : Text)
  | wroteTestbench (name : Text)
  deriving Repr

namespace Notice

inductive Level where
  | info
  | warning
  | error
  deriving DecidableEq, Repr

def Level.text : Level → Text
  | .info => "INFO"
  | .warning => "WARNING"
  | .error => "ERROR"

def level : Notice → Level
  | .unknownSetting .. | .filelistNotFound .. | .variableInFilelist .. | .noSources .. => .warning
  | .timedOut .. | .shadows .. => .warning
  | .failedToIndex .. | .cannotRead .. | .failedToHandle .. => .error
  | _ => .info

/-- The part of the library that says it. -/
def source : Notice → Text
  | .unknownSetting .. => "hdlscan.config"
  | .filelistNotFound .. | .variableInFilelist .. => "hdlscan.filelist"
  | .failedToHandle .. | .watching .. | .stoppedWatching .. => "hdlscan.watcher"
  | .wroteTestbench .. => "hdlhelper"
  | _ => "hdlscan.index"

def message : Notice → Text
  | .unknownSetting key => "Ignoring unknown configuration key: " ++ key.display
  | .filelistNotFound path => "Filelist not found: " ++ path
  | .variableInFilelist path line entry =>
    path ++ ":" ++ Text.ofNat line ++ ": skipped path with environment variable: " ++ entry
  | .filelistsFound count =>
    "Found " ++ Text.ofNat count ++ " filelist(s), indexing listed files only"
  | .noSources root => "No HDL files found under " ++ root
  | .reading count root => "Parsing " ++ Text.ofNat count ++ " file(s) under " ++ root
  | .failedToIndex path reason => "Failed to index " ++ path ++ ": " ++ reason
  | .scanned count => "Scan complete: " ++ Text.ofNat count ++ " module(s) indexed"
  | .cannotRead path reason => "Cannot read " ++ path ++ ": " ++ reason.message
  | .timedOut path after => "Parsing " ++ path ++ " timed out after " ++ after.display ++ "s"
  | .shadows name path before =>
    "Module " ++ name ++ " defined in " ++ path ++ " shadows the definition in " ++ before
  | .resolvesTo name path => "Module " ++ name ++ " now resolves to " ++ path
  | .removed path names => "Removed " ++ path ++ " from index: " ++ Text.joinWith ", " names
  | .failedToHandle kind key => "Failed to handle " ++ kind ++ " event for " ++ key
  | .watching root => "Watching " ++ root
  | .stoppedWatching root => "Stopped watching " ++ root
  | .wroteTestbench name => "Wrote testbench for " ++ name

/-- The notice as a line of a log. -/
def line (n : Notice) : Text := n.level.text ++ " " ++ n.source ++ ": " ++ n.message

end Notice

end VerilogIndex
