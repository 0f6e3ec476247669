namespace PagedIndex.Workload

structure Options where
  -- frames in each shard
  poolSize : Nat
  shards : Nat
  keys : Nat
  threads : Nat
  capacity? : Option Nat
  dataFile? : Option String
  seed? : Option UInt64
  debug : Bool
deriving Repr

inductive Request
  | run (options : Options)
  | help
  | version
  | misuse
deriving Repr

-- Options that take a value.
inductive Setting
  | poolSize
  | shards
  | keys
  | threads
  | capacity
  | dataFile
  | seed
deriving DecidableEq, Repr

inductive Flag
  | debug
  | help
  | version
deriving DecidableEq, Repr

-- What has been read so far. No option may be given twice.
structure Given where
  values : List (Setting × String)
  debug : Bool

namespace Given

def value? (g : Given) (setting : Setting) : Option String := g.values.lookup setting

end Given

def settingNamed? : String → Option Setting
  | "pool-size" => some .poolSize
  | "instances" => some .shards
  | "keys" => some .keys
  | "threads" => some .threads
  | "bucket-capacity" => some .capacity
  | "data-file" => some .dataFile
  | "seed" => some .seed
  | _ => none

def settingLetter? : Char → Option Setting
  | 'p' => some .poolSize
  | 'i' => some .shards
  | 'k' => some .keys
  | 't' => some .threads
  | 'b' => some .capacity
  | 'f' => some .dataFile
  | 's' => some .seed
  | _ => none

def flagNamed? : String → Option Flag
  | "debug" => some .debug
  | "help" => some .help
  | "version" => some .version
  | _ => none

def flagLetter? : Char → Option Flag
  | 'd' => some .debug
  | 'h' => some .help
  | 'V' => some .version
  | _ => none

def digits? (cs : List Char) : Option Nat :=
  if cs.isEmpty || !cs.all Char.isDigit then none
  else some (cs.foldl (fun n c => 10 * n + (c.toNat - '0'.toNat)) 0)

-- A decimal number below a bound, with or without a plus sign.
def number? (bound : Nat) (text : String) : Option Nat := do
  let n ← match text.toList with
    | '+' :: cs => digits? cs
    | cs => digits? cs
  if n < bound then some n else none

-- The same, where zero may also have a minus sign.
def signedNumber? (bound : Nat) (text : String) : Option Nat :=
  match text.toList with
  | '-' :: cs => do if (← digits? cs) = 0 then some 0 else none
  | _ => number? bound text

-- Whether a value can be read as one of the setting.
def accepts (setting : Setting) (text : String) : Bool :=
  match setting with
  | .shards => (signedNumber? UInt32.size text).isSome
  | .dataFile => !text.isEmpty
  | _ => (number? UInt64.size text).isSome

-- Add a value, unless it cannot be read or its setting was given before.
def Given.add? (g : Given) (setting : Setting) (text : String) : Option Given :=
  if (g.value? setting).isSome || !accepts setting text then none
  else some { g with values := (setting, text) :: g.values }

-- The options given, with the usual values for those that were not.
def Given.options (g : Given) : Options :=
  let number (setting : Setting) (usual : Nat) : Nat :=
    ((g.value? setting).bind (number? UInt64.size)).getD usual
  { poolSize := number .poolSize 64
    shards := ((g.value? .shards).bind (signedNumber? UInt32.size)).getD 4
    keys := number .keys 10000
    threads := number .threads 4
    capacity? := (g.value? .capacity).bind (number? UInt64.size)
    dataFile? := g.value? .dataFile
    seed? := (g.value? .seed).bind fun text => (number? UInt64.size text).map UInt64.ofNat
    debug := g.debug }

-- What an argument amounts to: options read, a setting whose value is the next argument, or the
-- end of reading.
inductive Reading
  | read (given : Given)
  | awaits (setting : Setting) (given : Given)
  | ends (request : Request)

namespace Reading

def ofGiven? : Option Given → Reading
  | some g => read g
  | none => ends .misuse

end Reading

def readFlag (g : Given) : Flag → Reading
  | .help => .ends .help
  | .version => .ends .version
  | .debug => if g.debug then .ends .misuse else .read { g with debug := true }

-- Letters after a single dash. A setting takes the rest as its value, after an equals sign if
-- there is one.
def readLetters (g : Given) : List Char → Reading
  | [] => .read g
  | c :: rest =>
    match flagLetter? c, settingLetter? c with
    | some flag, _ =>
      match readFlag g flag with
      | .read g => readLetters g rest
      | other => other
    | none, some setting =>
      match rest with
      | [] => .awaits setting g
      | '=' :: value => .ofGiven? (g.add? setting (String.ofList value))
      | value => .ofGiven? (g.add? setting (String.ofList value))
    | none, none => .ends .misuse

-- A name after two dashes, perhaps with a value after an equals sign.
def readName (g : Given) (cs : List Char) : Reading :=
  let name := String.ofList (cs.takeWhile (· != '='))
  match cs.dropWhile (· != '='), settingNamed? name, flagNamed? name with
  | [], some setting, _ => .awaits setting g
  | _ :: value, some setting, _ => .ofGiven? (g.add? setting (String.ofList value))
  | [], none, some flag => readFlag g flag
  | _, none, _ => .ends .misuse

def looksLikeOption (text : String) : Bool := text.startsWith "-" && text != "-"

def readFrom (g : Given) : List String → Request
  | [] => .run g.options
  | arg :: rest =>
    let reading : Reading :=
      match arg.toList with
      | ['-', '-'] => if rest.isEmpty then .read g else .ends .misuse
      | '-' :: '-' :: name => readName g name
      | '-' :: c :: letters => readLetters g (c :: letters)
      | _ => .ends .misuse
    match reading, rest with
    | .read g, rest => readFrom g rest
    | .awaits setting g, value :: rest =>
      if looksLikeOption value then .misuse
      else
        match g.add? setting value with
        | some g => readFrom g rest
        | none => .misuse
    | .awaits _ _, [] => .misuse
    | .ends request, _ => request

def readArguments (args : List String) : Request := readFrom ⟨[], false⟩ args

end PagedIndex.Workload
