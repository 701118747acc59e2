import ParamStore.Command
import ParamStore.Command.Arguments
import ParamStore.Command.Wire
import ParamStore.Command.Words
import ParamStore.CommandLine
import ParamStore.Config
import ParamStore.Config.File
import ParamStore.Config.Yaml
import ParamStore.Container
import ParamStore.Decimal.Binary64
import ParamStore.Decimal.Shortest
import ParamStore.Decimal.Stepwise
import ParamStore.Error
import ParamStore.Family
import ParamStore.File
import ParamStore.FileTree
import ParamStore.FileTree.Path
import ParamStore.Help
import ParamStore.Json.Printer
import ParamStore.Json.Reader
import ParamStore.Json.Record
import ParamStore.Json.Tree
import ParamStore.Json.Value
import ParamStore.Kind
import ParamStore.Loader
import ParamStore.Main
import ParamStore.Node
import ParamStore.Parameter
import ParamStore.Parameter.Wire
import ParamStore.Path
import ParamStore.Path.Wire
import ParamStore.Proofs.Command.Flags
import ParamStore.Proofs.Command.Grammar
import ParamStore.Proofs.Command.Listing
import ParamStore.Proofs.Command.Words
import ParamStore.Proofs.Container
import ParamStore.Proofs.Container.Frames
import ParamStore.Proofs.Container.Frozen
import ParamStore.Proofs.Container.Run
import ParamStore.Proofs.Container.Slots
import ParamStore.Proofs.Container.Sweep
import ParamStore.Proofs.Container.Warrant
import ParamStore.Proofs.Json.Record
import ParamStore.Proofs.Loader.Calls
import ParamStore.Proofs.Loader.Cycle
import ParamStore.Proofs.Loader.Edits
import ParamStore.Proofs.Loader.FailedLoad
import ParamStore.Proofs.Loader.Load
import ParamStore.Proofs.Loader.Reload
import ParamStore.Proofs.Loader.Report
import ParamStore.Proofs.Loader.SharedGroup
import ParamStore.Proofs.Loader.Steps
import ParamStore.Proofs.Loader.Unload
import ParamStore.Proofs.Node
import ParamStore.Proofs.Parameter.Identity
import ParamStore.Proofs.Path
import ParamStore.Proofs.Path.Grammar
import ParamStore.Proofs.Session.Compose
import ParamStore.Proofs.Session.Refusal
import ParamStore.Proofs.Session.Run
import ParamStore.Proofs.Session.Script
import ParamStore.Proofs.Session.Unfold
import ParamStore.Proofs.Session.Warrant
import ParamStore.Proofs.Store.Consistent
import ParamStore.Proofs.Store.Contents
import ParamStore.Proofs.Store.Diagnosis
import ParamStore.Proofs.Store.Dictionary
import ParamStore.Proofs.Store.InPlace
import ParamStore.Proofs.Store.Lookup
import ParamStore.Proofs.Store.Partition
import ParamStore.Proofs.Store.ReadBack
import ParamStore.Proofs.Store.Release
import ParamStore.Proofs.Store.Removal
import ParamStore.Proofs.Store.Request
import ParamStore.Proofs.Store.Resolution
import ParamStore.Proofs.Store.Slots
import ParamStore.Proofs.Store.Sound
import ParamStore.Proofs.Store.Sweep
import ParamStore.Proofs.Store.Undo
import ParamStore.Proofs.Store.Write
import ParamStore.Proofs.Text.Utf8
import ParamStore.Proofs.Trie
import ParamStore.Proofs.Trie.Refinement
import ParamStore.Proofs.Trie.Resolve
import ParamStore.Proofs.Trie.Walk
import ParamStore.Proofs.Wire
import ParamStore.Registry
import ParamStore.Reply
import ParamStore.Response
import ParamStore.Scope
import ParamStore.Session
import ParamStore.SipHash
import ParamStore.Store.Basic
import ParamStore.Store.Index
import ParamStore.Store.Lookup
import ParamStore.Store.Release
import ParamStore.Store.Write
import ParamStore.Table.Basic
import ParamStore.Table.Entries
import ParamStore.Text.Blank
import ParamStore.Text.Pieces
import ParamStore.Trie
import ParamStore.Yaml.Character
import ParamStore.Yaml.Document
import ParamStore.Yaml.Node
import ParamStore.Yaml.Printer
import ParamStore.Yaml.Token
import ParamStore.Yaml.Token.Lexer
import ParamStore.Yaml.Token.Property
import ParamStore.Yaml.Token.Scalar
