import MatLogger2.VarBuffer.Loss
import MatLogger2.VarBuffer.Refused
import MatLogger2.VarBuffer.Linearizable
import MatLogger2.VarBuffer.Fresh
import MatLogger2.VarBuffer.WaitFree
import MatLogger2.Logger.Circular
import MatLogger2.Logger.Sizing
import MatLogger2.Logger.Bytes
import MatLogger2.Logger.Definitions
import MatLogger2.Logger.Layout
import MatLogger2.Logger.Pose
import MatLogger2.Logger.FileName
import MatLogger2.Logger.Constructions
import MatLogger2.Backend.Container
import MatLogger2.Backend.Text
import MatLogger2.Backend.Codec
import MatLogger2.Backend.NullChild
import MatLogger2.Backend.Supported
import MatLogger2.Backend.Complete
import MatLogger2.Backend.Cube
import MatLogger2.Backend.Saved
import MatLogger2.Backend.SharedFile
import MatLogger2.Logger.Flushed
import MatLogger2.Backend.Session
import MatLogger2.MatData.Assign
import MatLogger2.Appender.Flusher
import MatLogger2.Appender.Space
import MatLogger2.Appender.Available
import MatLogger2.Appender.Managed
import MatLogger2.Appender.Passes
