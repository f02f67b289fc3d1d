import HtmlIds.Check.Basic
import HtmlIds.Generator.Frame
import HtmlIds.Server.Wire

namespace HtmlIds

namespace CommandLine

partial def treeOf (entry : IO.FS.DirEntry) : IO (Option FileTree) := do
  if ← entry.path.isDir then
    let entries := (← entry.path.readDir).toList.filter (·.fileName ≠ skippedDirectory)
    let found ← entries.filterMapM fun inner => do
      return (← treeOf inner).map (inner.fileName, ·)
    return some (.directory found)
  else if ← entry.path.pathExists then
    return some (.file (← IO.FS.readBinFile entry.path))
  else return none

def look (files : FileSystem) (paths : List String) : IO FileSystem :=
  let places := paths.map fun path =>
    (path, FileTree.namesOf (Path.join files.workingDirectory path))
  (places.mergeSort fun a b => a.2.length ≤ b.2.length).foldlM (fun files (path, names) => do
    let entry : IO.FS.DirEntry := { root := files.workingDirectory, fileName := path }
    match ← (treeOf entry).toBaseIO with
    | .ok (some tree) => return { files with root := FileTree.put tree names files.root }
    | _ => return files) files

def configPaths (start : String) : List String :=
  (Path.ancestors start).flatMap fun directory => Config.fileNames.map (Path.join directory)

def noFiles : IO FileSystem := do
  let directory := (← IO.currentDir).toString
  return ⟨FileTree.put (.directory []) (FileTree.namesOf directory) (.directory []), directory⟩

def printErrors (text : String) : IO Unit := do
  (← IO.getStderr).putStr text

def elapsedLine (colors : Bool) (milliseconds : Nat) : String :=
  let hundredths := (milliseconds + 5) / 10
  let digits := toString (hundredths % 100)
  "  " ++ Style.dim.paint colors "⏱" ++ " " ++ toString (hundredths / 100) ++ "." ++
    (if digits.length = 1 then "0" ++ digits else digits) ++ "s\n"

def check (options : Options) (paths : List String) (format : ReportFormat) : IO UInt32 := do
  let start ← IO.monoMsNow
  let found : ColorVariables :=
    ⟨← IO.getEnv "NO_COLOR", ← IO.getEnv "CLICOLOR", ← IO.getEnv "CLICOLOR_FORCE"⟩
  let colors := usesColor options.color options.noColor found
  let empty ← noFiles
  let files ← look empty (configPaths empty.workingDirectory ++ options.config.toList ++
    if paths = [] then ["."] else paths)
  let outcome := Check.run files options colors paths format
  IO.print outcome.output
  printErrors outcome.errors
  if format = .human && !options.quiet && outcome.exitCode ≠ .configError then
    IO.print (elapsedLine colors ((← IO.monoMsNow) - start))
  return outcome.exitCode.number.toUInt32

partial def readLength (input : IO.FS.Stream) (length : Option Nat) : IO (Option Nat) := do
  let line ← input.getLine
  if line = "" then return none
  else
    match Frame.readHeader line.toUTF8.toList with
    | .ok .blank => return length
    | .ok (.length length) => readLength input (some length)
    | .ok .other => readLength input length
    | .error _ => return none

partial def readBytes (input : IO.FS.Stream) (size : Nat) (found : ByteArray) : IO ByteArray := do
  if size ≤ found.size then return found
  else
    let more ← input.read (size - found.size).toUSize
    if more.isEmpty then return found else readBytes input size (found ++ more)

def readMessage (input : IO.FS.Stream) : IO (Option Server.Message) := do
  match ← readLength input none with
  | none => return none
  | some length =>
    let body ← readBytes input length .empty
    match Frame.readBody body.toList with
    | .ok value => return Server.Message.ofJson? value
    | .error _ => return none

def settingFor (configPath : Option String) (params : Json) : IO Server.Setting := do
  let files ← noFiles
  match Params.startup params with
  | none => return { files, configPath }
  | some startup =>
    let roots := (Server.workspaceRoot? startup).toList.flatMap configPaths
    let setting : Server.Setting := { files := ← look files (configPath.toList ++ roots), configPath }
    let database := (Server.startConfig setting startup).database
    return { setting with files := ← look setting.files database.toList }

partial def serve (configPath : Option String) (input output : IO.FS.Stream)
    (stage : Server.Stage) : IO Server.Ending := do
  match stage with
  | .ended ending => return ending
  | _ =>
    match ← readMessage input with
    | none => return Server.hangUp stage
    | some message =>
      let setting ← match message with
        | .request _ "initialize" params => settingFor configPath params
        | _ => settingFor none .null
      let (sent, stage) := Server.step setting stage message
      for message in sent do
        output.putStr (Server.frame message.encode.compact)
      output.flush
      serve configPath input output stage

def converse (configPath : Option String) : IO UInt32 := do
  match (← serve configPath (← IO.getStdin) (← IO.getStdout) .waiting).message? with
  | none => return 0
  | some message =>
    printErrors ("Error: " ++ message ++ "\n")
    return 1

def run (arguments : List String) : IO UInt32 := do
  match Invocation.ofArguments arguments with
  | .check options paths format => check options paths format
  | .serve options => converse options.config
  | .version =>
    IO.print versionText
    return 0
  | .refused =>
    printErrors "error: these arguments cannot be used\n"
    return 2

end CommandLine

end HtmlIds

def main (arguments : List String) : IO UInt32 :=
  HtmlIds.CommandLine.run arguments
