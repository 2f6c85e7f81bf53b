import ImportTidy.Text.Whitespace

/-!
# Categories of modules

A module that names are imported from is local, of the standard library, a known
library, or unknown.  Only its top-level package counts, which is its first word
up to the first dot.  A module that starts with a dot is local.

Names of libraries are compared with every `-` read as `_`.  The packages of the
standard library are compared as they are, and come before the known libraries.
-/

namespace ImportTidy

/-- The category of a module. -/
inductive Category where
  /-- One of the libraries that the settings name. -/
  | known
  /-- A module of the same package. -/
  | relative
  /-- A module of the standard library. -/
  | standard
  /-- None of these. -/
  | unknown
deriving DecidableEq, Repr

namespace Category

/-- The top-level packages of the standard library. -/
def standardPackages : List String :=
  ["abc", "argparse", "array", "ast", "asyncio", "atexit", "base64", "bdb", "binascii", "bisect",
   "builtins", "bz2", "calendar", "cmath", "cmd", "code", "codecs", "collections", "colorsys",
   "compileall", "concurrent", "configparser", "contextlib", "contextvars", "copy", "copyreg",
   "cProfile", "csv", "ctypes", "curses", "dataclasses", "datetime", "dbm", "decimal", "difflib",
   "dis", "doctest", "email", "encodings", "enum", "errno", "faulthandler", "fcntl", "filecmp",
   "fileinput", "fnmatch", "fractions", "ftplib", "functools", "gc", "getopt", "getpass",
   "gettext", "glob", "graphlib", "grp", "gzip", "hashlib", "heapq", "hmac", "html", "http",
   "imaplib", "importlib", "inspect", "io", "ipaddress", "itertools", "json", "keyword",
   "linecache", "locale", "logging", "lzma", "mailbox", "marshal", "math", "mimetypes", "mmap",
   "modulefinder", "multiprocessing", "netrc", "numbers", "operator", "optparse", "os",
   "pathlib", "pdb", "pickle", "pickletools", "pkgutil", "platform", "plistlib", "poplib",
   "posix", "posixpath", "pprint", "profile", "pstats", "pty", "pwd", "py_compile", "pyclbr",
   "pydoc", "queue", "quopri", "random", "re", "readline", "reprlib", "resource", "rlcompleter",
   "runpy", "sched", "secrets", "select", "selectors", "shelve", "shlex", "shutil", "signal",
   "site", "smtplib", "socket", "socketserver", "sqlite3", "ssl", "stat", "statistics", "string",
   "stringprep", "struct", "subprocess", "symtable", "sys", "sysconfig", "syslog", "tabnanny",
   "tarfile", "tempfile", "termios", "textwrap", "threading", "time", "timeit", "tkinter",
   "token", "tokenize", "tomllib", "trace", "traceback", "tracemalloc", "tty", "types", "typing",
   "unicodedata", "unittest", "urllib", "uuid", "venv", "warnings", "wave", "weakref",
   "webbrowser", "winreg", "wsgiref", "xml", "xmlrpc", "zipapp", "zipfile", "zipimport", "zlib",
   "zoneinfo", "_thread", "__future__"]

/-- The text with every `-` replaced by `_`. -/
def underscored (text : String) : String :=
  String.ofList (text.toList.map fun c => if c = '-' then '_' else c)

/-- The first word of a module, or the whole of it where it has none. -/
def wordOf (module : String) : String :=
  let word := Whitespace.firstWord module
  if word = "" then module else word

/-- The top-level package of a module. -/
def packageOf (module : String) : String :=
  String.ofList ((wordOf module).toList.takeWhile (· ≠ '.'))

/-- The names under which libraries are looked up. -/
def knownNames (libraries : List String) : List String := libraries.map underscored

/-- Some of the libraries has the name of the package, as it is or with every `-` replaced. -/
def isKnown (libraries : List String) (package : String) : Bool :=
  let names := knownNames libraries
  names.contains package || names.contains (underscored package)

/-- The category of a module, given the known libraries. -/
def ofModule (libraries : List String) (module : String) : Category :=
  if module.toList.head? = some '.' then .relative
  else
    let package := packageOf module
    if standardPackages.contains package then .standard
    else if isKnown libraries package then .known
    else .unknown

/-- The name of a category in a report. -/
def label : Category → String
  | .known => "known"
  | .relative => "local"
  | .standard => "stdlib"
  | .unknown => "unknown"

/-- The category of this name. -/
def ofLabel? : String → Option Category
  | "known" => some .known
  | "local" => some .relative
  | "stdlib" => some .standard
  | "unknown" => some .unknown
  | _ => none

theorem ofLabel?_label (c : Category) : ofLabel? c.label = some c := by
  cases c <;> rfl

end Category

end ImportTidy
