import Columnar.Main
import Columnar.Proofs.Action
import Columnar.Proofs.Files
import Columnar.Proofs.Payload.Stream
import Columnar.Proofs.Payload.ClassTags
import Columnar.Proofs.Payload.Sequences
import Columnar.Proofs.Chunk.Join
import Columnar.Proofs.Chunk.Uniform
import Columnar.Proofs.Chunk.Values
import Columnar.Proofs.Chunk.Operations
import Columnar.Proofs.Block.Corruption
import Columnar.Proofs.Block.Slots
import Columnar.Proofs.Block.Basic
import Columnar.Proofs.Block.Decoding
import Columnar.Proofs.Block.Limits
import Columnar.Proofs.Block.RowCount
import Columnar.Proofs.Block.Refusals
import Columnar.Proofs.ChunkFile.Index
import Columnar.Proofs.ChunkFile.Writer
import Columnar.Proofs.ChunkFile.Footer
import Columnar.Proofs.ChunkFile.Narrowing
import Columnar.Proofs.ChunkFile.Retagged
import Columnar.Proofs.Column.Access
import Columnar.Proofs.Column.Decoding
import Columnar.Proofs.Column.Slotwise
import Columnar.Proofs.Cursor.Buffers
import Columnar.Proofs.Cursor.Stored
import Columnar.Proofs.Cursor.Write
import Columnar.Proofs.Cursor.Slots
import Columnar.Proofs.Cursor.Moves
import Columnar.Proofs.Cursor.Agreement
import Columnar.Proofs.Cursor.Read
import Columnar.Proofs.Cursor.Failure
import Columnar.Proofs.Cursor.Uniform
import Columnar.Proofs.Cursor.Order
import Columnar.Proofs.Cursor.Calls
import Columnar.Proofs.Cursor.Steps
import Columnar.Proofs.Cursor.Rollback
import Columnar.Proofs.Store.Contents
import Columnar.Proofs.Cursor.Selection
import Columnar.Proofs.Store.ChunkFile
import Columnar.Proofs.Store.Saved
import Columnar.Proofs.Store.Numbers
import Columnar.Proofs.Store.Opened
import Columnar.Proofs.Store.Transparent
import Columnar.Proofs.Store.Named
import Columnar.Proofs.Settings.Token
import Columnar.Proofs.Settings.Basic
import Columnar.Proofs.Settings.Text
import Columnar.Proofs.Settings.Depth
import Columnar.Proofs.Table.Rows
import Columnar.Proofs.Table.Iterator
import Columnar.Proofs.Table.Access
import Columnar.Proofs.Table.Draining
import Columnar.Proofs.Table.Closed
import Columnar.Proofs.Table.Opened
import Columnar.Proofs.Table.Unselected
import Columnar.Proofs.Table.Container
import Columnar.Proofs.Table.Filling
import Columnar.Proofs.Table.Record
import Columnar.Proofs.Table.SpecRecord
import Columnar.Proofs.Table.Lifecycle
import Columnar.Proofs.Table.TagRuns
import Columnar.Proofs.Column.RoundTrip
import Columnar.Proofs.Table.Replay
import Columnar.Proofs.Workspace.Reading
import Columnar.Proofs.Workspace.Runs
import Columnar.Proofs.Workspace.Sessions
import Columnar.Proofs.Workspace.Draining
import Columnar.Proofs.Workspace.Containers
import Columnar.Proofs.Workspace.Saving
import Columnar.Proofs.Workspace.FailedSave
import Columnar.Proofs.Workspace.Repository
import Columnar.Proofs.Workspace.Opened
import Columnar.Proofs.Workspace.Clearing
import Columnar.Proofs.Workspace.Calls
import Columnar.Proofs.Workspace.Projection
import Columnar.Proofs.Workspace.Rejections
import Columnar.Proofs.Column.Acceptance
import Columnar.Proofs.Table.Acceptance
import Columnar.Proofs.Workspace.Acceptance
